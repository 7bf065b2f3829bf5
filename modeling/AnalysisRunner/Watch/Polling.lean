import AnalysisRunner.FileTree.Operations
import AnalysisRunner.Watch.Backend

/-!
# Polling

A backend that polls compares two copies of the disk and notifies about every file
that is in one of them only, or that differs.
-/

namespace AnalysisRunner

/-- Whether a node is a file. -/
def Node.isFile : Node → Bool
  | .file .. => true
  | _ => false

/-- What a poll notifies about: files that are gone, and then files that are new or
differ. -/
def FileTree.notifications (before after : FileTree) : List (NotificationKind × Path) :=
  let gone := before.nodes.entries.filter fun e => e.2.isFile && !after.nodes.contains e.1
  let seen := after.nodes.entries.filterMap fun e =>
    if e.2.isFile then
      match before.nodes.get? e.1 with
      | none => some (.create, e.1.path)
      | some old => if old = e.2 then none else some (.modify, e.1.path)
    else none
  gone.map (fun e => (.remove, e.1.path)) ++ seen

end AnalysisRunner
