import AnalysisRunner.FileTree.Operations
import AnalysisRunner.Path.Table
import AnalysisRunner.Watch.Change
import AnalysisRunner.Watch.Filter

/-!
# The watch table

The table of what is watched and of what was last seen of it.

* `roots` are the watched directories.  Below them, files that pass the filter are
  tracked.
* `explicit` are files that were named; they are tracked whatever the filter says.
* `excluded` are files that were dropped; they are not tracked until they are named
  again.
* `tracked` are the files that are there, each with its signature.

The table meets the disk one path at a time: `apply` compares what was seen with what
is there now, records the difference as changes, and takes over the new state.
-/

namespace AnalysisRunner

/-- What was last seen of a file. -/
structure WatchEntry where
  path : Path
  /-- Missing while the file is. -/
  signature : Option Signature
  deriving DecidableEq, Repr

/-- What is watched. -/
structure WatchTable where
  filter : Filter
  roots : List Path
  explicit : PathSet
  excluded : PathSet
  tracked : PathTable WatchEntry
  /-- How many changes were recorded. -/
  changes : Nat
  /-- When the last change was recorded. -/
  lastChange : Option Timestamp

namespace WatchTable

/-- A table in which nothing is watched. -/
def new (filter : Filter) : WatchTable where
  filter
  roots := []
  explicit := .empty
  excluded := .empty
  tracked := .empty
  changes := 0
  lastChange := none

/-- The table with nothing watched, but with its counts. -/
def forget (t : WatchTable) : WatchTable :=
  { t with roots := [], explicit := .empty, excluded := .empty, tracked := .empty }

/-! ## 1. What concerns the table -/

/-- The deeper of two directories, the second of two that are as deep. -/
def deeper (best : Option Path) (root : Path) : Option Path :=
  match best with
  | none => some root
  | some b => if b.components.length ≤ root.components.length then some root else some b

/-- The deepest watched directory that a path is in. -/
def rootFor (t : WatchTable) (p : Path) : Option Path :=
  (t.roots.filter fun root => p.startsWith root).foldl deeper none

/-- Whether a notification about a path is worth a look at it. -/
def isRelevant (t : WatchTable) (p : Path) : Bool :=
  !t.excluded.has p &&
    (t.tracked.has p || t.explicit.has p ||
      (t.rootFor p).any fun root => !t.filter.isIgnored p root)

/-- Whether a file is to be tracked when it appears. -/
def isEligible (t : WatchTable) (p : Path) : Bool :=
  !t.excluded.has p &&
    (t.explicit.has p || (t.rootFor p).any fun root => t.filter.accepts p root)

/-- The tracked files, in the order of paths. -/
def files (t : WatchTable) : List Path :=
  t.tracked.sortedPaths

/-! ## 2. Changes -/

/-- Takes over what is seen of a file. -/
def track (t : WatchTable) (p : Path) (signature : Option Signature) : WatchTable :=
  { t with tracked := t.tracked.put p ⟨p, signature⟩ }

/-- No longer tracks a file. -/
def untrack (t : WatchTable) (p : Path) : WatchTable :=
  { t with tracked := t.tracked.remove p }

/-- Counts a change. -/
def count (t : WatchTable) (time : Timestamp) : WatchTable :=
  { t with changes := t.changes + 1, lastChange := some time }

/-- The tracked files at or below a path, in the order of paths. -/
def trackedBelow (t : WatchTable) (p : Path) : List Path :=
  t.files.filter fun file => file.startsWith p

/-- Records that a file is gone. -/
def lose (time : Timestamp) (t : WatchTable) (p : Path) : WatchTable :=
  (t.untrack p).count time

/-- Compares what was seen at a path with what is there now: nothing, or a file with a
signature.  If there is nothing at a path that was not tracked, a directory may have
been there, and the files in it are gone. -/
def apply (t : WatchTable) (time : Timestamp) (p : Path) (current : Option Signature) :
    List Change × WatchTable :=
  if t.excluded.has p then ([], t)
  else
    match (t.tracked.find? p).map WatchEntry.signature, current with
    | some none, none => ([], t)
    | some (some _), none => ([⟨p, .remove, time⟩], t.lose time p)
    | some none, some s => ([⟨p, .add, time⟩], (t.track p (some s)).count time)
    | some (some previous), some s =>
      if previous = s then ([], t)
      else ([⟨p, .change, time⟩], (t.track p (some s)).count time)
    | none, some s =>
      if t.isEligible p then ([⟨p, .add, time⟩], (t.track p (some s)).count time) else ([], t)
    | none, none =>
      let gone := t.trackedBelow p
      (gone.map fun file => ⟨file, .remove, time⟩, gone.foldl (lose time) t)

/-- Takes over files that were found in a directory, but for those that are tracked
or excluded. -/
def discover (t : WatchTable) (time : Timestamp) : List WatchEntry → List Change × WatchTable
  | [] => ([], t)
  | e :: rest =>
    if t.tracked.has e.path || t.excluded.has e.path then t.discover time rest
    else
      let found := discover ((t.track e.path e.signature).count time) time rest
      (⟨e.path, .add, time⟩ :: found.1, found.2)

end WatchTable
end AnalysisRunner
