import AnalysisRunner.FileTree.Steps
import AnalysisRunner.Settings.Document
import AnalysisRunner.Settings.Environment
import AnalysisRunner.Settings.Rules

/-!
# Where settings come from

Settings are the standard ones, overridden by a file, overridden by the
environment, and judged last.  The file is the one that is named, or else the first
that exists of `.sollint.toml` in the working directory and `.sollint/config.toml`
in the home directory.
-/

namespace AnalysisRunner

/-- Why there are no settings. -/
inductive SettingsFault where
  | notFound (path : Path)
  | unreadable (fault : DiskFault)
  | malformed
  | invalid (fault : RuleFault)
  deriving DecidableEq, Repr

/-- What is said about settings that could not be had. -/
def SettingsFault.message : SettingsFault → String
  | .notFound path => "Config file not found: " ++ path.shown
  | .unreadable fault => "Failed to read config: " ++ fault.message
  | .malformed => "Failed to parse config"
  | .invalid fault => "Invalid configuration: " ++ fault.message

namespace Settings

/-- The settings file of the working directory. -/
def localFile : Path :=
  .ofText ".sollint.toml"

/-- The settings file of a home directory. -/
def homeFile (home : Path) : Path :=
  (home.join (.ofText ".sollint")).join (.ofText "config.toml")

/-- The settings file to read, if there is one. -/
def file? (disk : FileTree) (home : Option Path) (explicit : Option Path) :
    Except SettingsFault (Option Path) :=
  match explicit with
  | some path => if disk.leads path then .ok (some path) else .error (.notFound path)
  | none =>
    if disk.leads localFile then .ok (some localFile)
    else .ok ((home.map homeFile).filter disk.leads)

/-- The settings of a file; what it leaves out is taken from `base`. -/
def ofFile (base : Settings) (disk : FileTree) (path : Path) : Except SettingsFault Settings :=
  match disk.readText path with
  | .error fault => .error (.unreadable fault)
  | .ok text =>
    match (Toml.ofText? text).bind (ofDocument? base) with
    | some s => .ok s
    | none => .error .malformed

/-- Settings that break no rule. -/
def checked (s : Settings) : Except SettingsFault Settings :=
  match s.fault? with
  | some fault => .error (.invalid fault)
  | none => .ok s

/-- Settings together with the file they came from. -/
structure Loaded where
  settings : Settings
  file : Option Path
  deriving DecidableEq, Repr

/-- The settings in force. -/
def load (base : Settings) (disk : FileTree) (env : Environment) (home : Option Path)
    (explicit : Option Path) : Except SettingsFault Loaded := do
  let file ← file? disk home explicit
  let s ← match file with
    | some path => ofFile base disk path
    | none => pure base
  pure ⟨← checked (s.overlay env), file⟩

/-- The steps that write a settings file with the given settings. -/
def createSteps (s : Settings) (path : Path) : List DiskStep :=
  let above := path.parent?.filter fun dir => !dir.bytes.isEmpty
  (above.map DiskStep.makeDirectories).toList ++ [.write path (Bytes.ofText s.document)]

/-- Writes a settings file with the given settings; what was done before a fault stays
done. -/
def create (s : Settings) (disk : FileTree) (path : Path) (now : Nat) :
    FileTree × Except SettingsFault Unit :=
  match DiskStep.runAll now (s.createSteps path) disk with
  | (disk, none) => (disk, .ok ())
  | (disk, some fault) => (disk, .error (.unreadable fault))

end Settings
end AnalysisRunner
