import AnalysisRunner.Path.Basic

/-!
# Arguments of a command

The arguments name a command in one or two words, and each word opens a level of its
own: what follows belongs to that level until the next word.  The output format, the
settings file and verbosity can be given on every level, once each, and the deepest
level that gives one wins.

* `--name value`, `--name=value`, `-n value`, `-nvalue` and `-n=value` give a value.
  A value that follows as an argument of its own does not begin with a dash, unless it
  is just a dash.
* Switches of one letter can be written together, and the last letter may take a value.
* After `--` everything is an operand.
-/

namespace AnalysisRunner

/-- How results are shown. -/
inductive OutputFormat where
  | json
  | pretty
  deriving DecidableEq, Repr

/-- What is on if it is given. -/
inductive Switch where
  | verbose
  | help
  | version
  | polling
  /-- Changes are shown one by one. -/
  | single
  deriving DecidableEq, Repr

/-- What has a value. -/
inductive Valued where
  | output
  | config
  deriving DecidableEq, Repr

/-- What can be given on a level. -/
structure Level where
  /-- The switches, by letter and by name. -/
  switches : List (Option Char × String × Switch)
  /-- The words that open the next level. -/
  commands : List String
  /-- How many operands there may be; any number if not said. -/
  maxOperands : Option Nat

/-- What was given on a level. -/
structure Given where
  output : Option OutputFormat
  config : Option Path
  switches : List Switch
  operands : List Path

/-- Why nothing is done. -/
inductive Halt where
  /-- The arguments make no sense. -/
  | misuse
  /-- The version is asked for. -/
  | version
  /-- Help is asked for. -/
  | help
  deriving DecidableEq, Repr

namespace Given

/-- Nothing. -/
def nothing : Given :=
  ⟨none, none, [], []⟩

/-- Takes a value, which may be given once; a path is not empty. -/
def setValue (g : Given) (v : Valued) (text : String) : Except Halt Given :=
  match v with
  | .output =>
    match g.output, text with
    | none, "json" => .ok { g with output := some .json }
    | none, "pretty" => .ok { g with output := some .pretty }
    | _, _ => .error .misuse
  | .config =>
    if g.config.isSome || text.isEmpty then .error .misuse
    else .ok { g with config := some (.ofText text) }

/-- Takes a switch, which may be given once. -/
def setSwitch (g : Given) (s : Switch) : Except Halt Given :=
  match s with
  | .help => .error .help
  | .version => .error .version
  | s =>
    if g.switches.contains s then .error .misuse
    else .ok { g with switches := g.switches ++ [s] }

/-- Takes an operand. -/
def addOperand (level : Level) (g : Given) (text : String) : Except Halt Given :=
  if text.isEmpty || level.maxOperands.any (· ≤ g.operands.length) then .error .misuse
  else .ok { g with operands := g.operands ++ [.ofText text] }

end Given

namespace Level

/-- The value that a letter announces. -/
def valuedLetter? : Char → Option Valued
  | 'o' => some .output
  | 'c' => some .config
  | _ => none

/-- The value that a name announces. -/
def valuedName? : String → Option Valued
  | "output" => some .output
  | "config" => some .config
  | _ => none

/-- The switch of a letter. -/
def switchLetter? (level : Level) (c : Char) : Option Switch :=
  (level.switches.find? fun s => s.1 = some c).map fun s => s.2.2

/-- The switch of a name. -/
def switchName? (level : Level) (name : String) : Option Switch :=
  (level.switches.find? fun s => s.2.1 = name).map fun s => s.2.2

/-- A value that is written behind its letter. -/
def attached : List Char → String
  | '=' :: rest => String.ofList rest
  | cs => String.ofList cs

/-- Letters written together: what they give, and the value that is to follow. -/
def readLetters (level : Level) : Given → List Char → Except Halt (Given × Option Valued)
  | g, [] => .ok (g, none)
  | g, c :: rest =>
    match valuedLetter? c with
    | some v =>
      if rest.isEmpty then .ok (g, some v)
      else (g.setValue v (attached rest)).map fun g => (g, none)
    | none =>
      match level.switchLetter? c with
      | none => .error .misuse
      | some s =>
        match g.setSwitch s with
        | .ok g => readLetters level g rest
        | .error halt => .error halt

/-- A name, with its value if one is attached. -/
def readName (level : Level) (g : Given) (text : List Char) :
    Except Halt (Given × Option Valued) :=
  let name := String.ofList (text.takeWhile (· != '='))
  let value : Option String :=
    match text.dropWhile (· != '=') with
    | [] => none
    | _ :: rest => some (String.ofList rest)
  match valuedName? name, level.switchName? name, value with
  | some v, _, some text => (g.setValue v text).map fun g => (g, none)
  | some v, _, none => .ok (g, some v)
  | none, some s, none => (g.setSwitch s).map fun g => (g, none)
  | none, _, _ => .error .misuse

/-- Whether an argument cannot be a value: it begins with a dash and goes on. -/
def isDashed (arg : String) : Bool :=
  match arg.toList with
  | '-' :: _ :: _ => true
  | _ => false

/-- The arguments of a level: what they give, and the word that opens the next level
with the arguments after it.  A value that was announced has to follow. -/
def read (level : Level) :
    Given → Option Valued → List String → Except Halt (Given × Option (String × List String))
  | g, none, [] => .ok (g, none)
  | _, some _, [] => .error .misuse
  | g, some v, arg :: rest =>
    if isDashed arg then .error .misuse
    else
      match g.setValue v arg with
      | .ok g => read level g none rest
      | .error halt => .error halt
  | g, none, arg :: rest =>
    match arg.toList with
    | ['-', '-'] => (rest.foldlM (Given.addOperand level) g).map fun g => (g, none)
    | '-' :: '-' :: name =>
      match level.readName g name with
      | .ok (g, announced) => read level g announced rest
      | .error halt => .error halt
    | '-' :: c :: cs =>
      match level.readLetters g (c :: cs) with
      | .ok (g, announced) => read level g announced rest
      | .error halt => .error halt
    | _ =>
      if level.commands.contains arg then .ok (g, some (arg, rest))
      else
        match g.addOperand level arg with
        | .ok g => read level g none rest
        | .error halt => .error halt

end Level
end AnalysisRunner
