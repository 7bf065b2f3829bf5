import AnalysisRunner.Json.Record
import AnalysisRunner.Path.Basic
import AnalysisRunner.Time.Timestamp

/-!
# Changes of files

What can happen to a file between two looks at it, and the record of one such
change.
-/

namespace AnalysisRunner

/-- What happened to a file. -/
inductive ChangeKind where
  | add
  | change
  | remove
  deriving DecidableEq, Repr

namespace ChangeKind

/-- The word for a kind of change. -/
def text : ChangeKind → String
  | .add => "add"
  | .change => "change"
  | .remove => "remove"

/-- The kind of change that a word stands for. -/
def ofText? (word : String) : Option ChangeKind :=
  match word with
  | "add" => some .add
  | "change" => some .change
  | "remove" => some .remove
  | _ => none

end ChangeKind

/-- One change of a file. -/
structure Change where
  path : Path
  kind : ChangeKind
  time : Timestamp
  deriving DecidableEq, Repr

namespace Change

/-- The record of a change. -/
def json (c : Change) : Json :=
  .object [("file_path", .string c.path.shown), ("change_type", .string c.kind.text),
    ("timestamp", .string c.time.text)]

/-- The change that a document records; all fields must be there. -/
def ofWritten? (w : Written) : Option Change := do
  match ← Readable.fields? ["file_path", "change_type", "timestamp"] w with
  | [some path, some kind, some time] =>
    let path ← Readable.text? path
    let kind ← ChangeKind.ofText? (← kind.choice?)
    let time ← Timestamp.ofText? (← Readable.text? time)
    pure ⟨.ofText path, kind, time⟩
  | _ => none

/-- The change that a text records. -/
def ofText? (text : String) : Option Change :=
  (Written.ofText? text).bind ofWritten?

end Change
end AnalysisRunner
