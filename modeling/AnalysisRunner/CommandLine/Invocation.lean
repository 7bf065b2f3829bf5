import AnalysisRunner.CommandLine.Arguments

/-!
# What is asked for

The commands, and how the arguments spell them.
-/

namespace AnalysisRunner

/-- What is to be done. -/
inductive Command where
  | configInit (file : Path)
  | configShow
  | cacheStats
  | cacheClean
  | cacheClear
  | watch (paths : List Path) (polling single : Bool)
  deriving DecidableEq, Repr

/-- A command and how to go about it. -/
structure Invocation where
  output : OutputFormat
  config : Option Path
  verbose : Bool
  command : Command
  deriving DecidableEq, Repr

namespace Invocation

/-- The switches of every level. -/
def commonSwitches : List (Option Char × String × Switch) :=
  [(some 'v', "verbose", .verbose), (some 'h', "help", .help)]

/-- The level before any word. -/
def rootLevel : Level where
  switches := (some 'V', "version", .version) :: commonSwitches
  commands := ["config", "cache", "watch", "help"]
  maxOperands := some 0

/-- A level on which another word must follow. -/
def groupLevel (commands : List String) : Level where
  switches := commonSwitches
  commands := commands ++ ["help"]
  maxOperands := some 0

/-- A last level with so many operands. -/
def leafLevel (maxOperands : Option Nat) : Level where
  switches := commonSwitches
  commands := []
  maxOperands

/-- The level of the watch command. -/
def watchLevel : Level where
  switches := [(none, "polling", .polling), (none, "no-aggregate", .single)] ++ commonSwitches
  commands := []
  maxOperands := none

/-- The words that may follow a word. -/
def wordsAfter : List String → List String
  | [] => rootLevel.commands
  | ["config"] => ["init", "show", "help"]
  | ["cache"] => ["stats", "clean", "clear", "help"]
  | _ => []

/-- A request for help on a command, which has to exist. -/
def helpOn : List String → List String → Halt
  | _, [] => .help
  | path, word :: rest =>
    if (wordsAfter path).contains word then helpOn (path ++ [word]) rest else .misuse

/-- A level with nothing after it. -/
def readLeaf (level : Level) (args : List String) : Except Halt Given :=
  match level.read .nothing none args with
  | .ok (g, none) => .ok g
  | .ok (_, some _) => .error .misuse
  | .error halt => .error halt

/-- The settings file that a variable names; it is looked at on each level that names
none, and an empty name is no name. -/
def configOf (preset : Option Path) (levels : List Given) : Except Halt (Option Path) :=
  match preset with
  | some ⟨[]⟩ =>
    if levels.all fun g => g.config.isSome then .ok (levels.filterMap Given.config).getLast?
    else .error .misuse
  | preset =>
    match (levels.filterMap Given.config).getLast? with
    | some path => .ok (some path)
    | none => .ok preset

/-- A command with what was given on its levels. -/
def assemble (preset : Option Path) (levels : List Given) (command : Command) :
    Except Halt Invocation :=
  (configOf preset levels).map fun config =>
    { output := (levels.filterMap Given.output).getLast?.getD .pretty
      config
      verbose := levels.any fun g => g.switches.contains .verbose
      command }

/-- The settings file that is made if none is named. -/
def defaultFile : Path :=
  .ofText ".sollint.toml"

/-- The command of a word of the group for settings. -/
def ofConfigWord (preset : Option Path) (above : List Given) (word : String)
    (args : List String) : Except Halt Invocation := do
  match word with
  | "init" =>
    let g ← readLeaf (leafLevel (some 1)) args
    assemble preset (above ++ [g]) (.configInit (g.operands.head?.getD defaultFile))
  | "show" =>
    let g ← readLeaf (leafLevel (some 0)) args
    assemble preset (above ++ [g]) .configShow
  | _ => throw (helpOn ["config"] args)

/-- The command of a word of the group for the cache. -/
def ofCacheWord (preset : Option Path) (above : List Given) (word : String)
    (args : List String) : Except Halt Invocation := do
  let leaf (command : Command) : Except Halt Invocation := do
    let g ← readLeaf (leafLevel (some 0)) args
    assemble preset (above ++ [g]) command
  match word with
  | "stats" => leaf .cacheStats
  | "clean" => leaf .cacheClean
  | "clear" => leaf .cacheClear
  | _ => throw (helpOn ["cache"] args)

/-- What the arguments ask for, given the variable that names a settings file. -/
def ofArguments (preset : Option Path) (args : List String) : Except Halt Invocation := do
  let (root, next) ← rootLevel.read .nothing none args
  match next with
  | some ("config", rest) =>
    let (group, next) ← (groupLevel ["init", "show"]).read .nothing none rest
    match next with
    | some (word, rest) => ofConfigWord preset [root, group] word rest
    | none => throw .misuse
  | some ("cache", rest) =>
    let (group, next) ← (groupLevel ["stats", "clean", "clear"]).read .nothing none rest
    match next with
    | some (word, rest) => ofCacheWord preset [root, group] word rest
    | none => throw .misuse
  | some ("watch", rest) =>
    let g ← readLeaf watchLevel rest
    if g.operands.isEmpty then throw .misuse
    else
      assemble preset [root, g]
        (.watch g.operands (g.switches.contains .polling) (g.switches.contains .single))
  | some (_, rest) => throw (helpOn [] rest)
  | none => throw .misuse

end Invocation
end AnalysisRunner
