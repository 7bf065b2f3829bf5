import AnalysisRunner.FileTree.Operations

/-!
# Changes as lists of steps

A change of the disk that takes several operations is a list of steps.  It is run
one step after the other and stops at the first that the disk refuses; what was done
before stays done.  As a list, a change can be cut off anywhere and looked at.
-/

namespace AnalysisRunner

/-- One operation that changes a disk. -/
inductive DiskStep where
  | makeDirectories (path : Path)
  | write (path : Path) (content : Bytes)
  | rename (src dst : Path)
  | removeFile (path : Path)
  | removeDirectory (path : Path)
  deriving DecidableEq, Repr

namespace DiskStep

/-- The disk after a step at a time. -/
def run (now : Nat) (disk : FileTree) : DiskStep → Except DiskFault FileTree
  | .makeDirectories path => disk.makeDirectories path
  | .write path content => disk.write path content now
  | .rename src dst => disk.rename src dst
  | .removeFile path => disk.removeFile path
  | .removeDirectory path => disk.removeDirectory path

/-- The disk that a step leaves when it is refused: directories that were made stay made. -/
def left (disk : FileTree) : DiskStep → FileTree
  | .makeDirectories path => (disk.directoriesMade path).getLastD disk
  | _ => disk

/-- The disk after a list of steps, and the fault that stopped it, if one did. -/
def runAll (now : Nat) : List DiskStep → FileTree → FileTree × Option DiskFault
  | [], disk => (disk, none)
  | step :: rest, disk =>
    match step.run now disk with
    | .ok disk => runAll now rest disk
    | .error fault => (step.left disk, some fault)

end DiskStep

namespace FileTree

/-- The step that removes a node. -/
def removal (loc : Location) : Node → DiskStep
  | .directory => .removeDirectory loc.path
  | _ => .removeFile loc.path

/-- The steps that put a node in place.  A file is written beside its place first, so
that the place never holds half of it. -/
def placement (loc : Location) : Node → List DiskStep
  | .directory => [.makeDirectories loc.path]
  | .file content _ =>
    let draft : Path := ⟨loc.path.bytes ++ Bytes.ofText ".tmp"⟩
    [.write draft content, .rename draft loc.path]
  | .link _ => []

/-- The steps from one disk to a later one: what is gone is removed, the deepest first,
and what is new is put in place in the order in which it came.  Links are not made. -/
def stepsTo (before after : FileTree) : List DiskStep :=
  let gone := before.nodes.entries.filter fun e => !after.nodes.contains e.1
  let fresh := after.nodes.entries.reverse.filter fun e => before.nodes.get? e.1 ≠ some e.2
  (gone.mergeSort fun a b => b.1.length ≤ a.1.length).map (fun e => removal e.1 e.2) ++
    fresh.flatMap fun e => placement e.1 e.2

end FileTree
end AnalysisRunner
