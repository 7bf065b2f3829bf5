import AnalysisRunner.Watch.Table

/-!
# Scanning directories

A scan finds the files below a directory that pass a filter.  It goes down into real
directories only, and not into ignored ones; a link is looked at like a file, so it
counts if it leads to one.
-/

namespace AnalysisRunner
namespace FileTree

/-- The longest location on a disk. -/
def height (disk : FileTree) : Nat :=
  (disk.nodes.keys.map List.length).foldl max 0

/-- Scans a directory at a location under the path that leads there.  The first
argument bounds how deep the scan goes. -/
def scanUpTo (disk : FileTree) (filter : Filter) (root : Path) :
    Nat → Location → Path → List WatchEntry
  | 0, _, _ => []
  | fuel + 1, loc, dir =>
    (disk.children loc).flatMap fun (name, node) =>
      let path := dir.join ⟨name⟩
      match node with
      | .directory =>
        if filter.isIgnored path root then []
        else scanUpTo disk filter root fuel (loc ++ [name]) path
      | _ =>
        if filter.accepts path root then
          match disk.look path with
          | .file signature => [⟨path, some signature⟩]
          | _ => []
        else []

/-- The files below a directory that pass a filter, seen from a watched directory. -/
def scan (disk : FileTree) (filter : Filter) (root dir : Path) : List WatchEntry :=
  match disk.find dir with
  | .ok (loc, .directory) => disk.scanUpTo filter root (disk.height + 1) loc dir
  | _ => []

end FileTree

/-- Compares the table with the disk at a path. -/
def WatchTable.settle (t : WatchTable) (disk : FileTree) (time : Timestamp) (p : Path) :
    List Change × WatchTable :=
  match disk.look p with
  | .directory =>
    match t.rootFor p with
    | none => ([], t)
    | some root => t.discover time (disk.scan t.filter root p)
  | .file signature => t.apply time p (some signature)
  | .missing => t.apply time p none

/-- Compares the table with the disk at several paths, one after the other. -/
def WatchTable.settleAll (t : WatchTable) (disk : FileTree) (time : Timestamp) :
    List Path → List Change × WatchTable
  | [] => ([], t)
  | p :: rest =>
    let first := t.settle disk time p
    let others := first.2.settleAll disk time rest
    (first.1 ++ others.1, others.2)

end AnalysisRunner
