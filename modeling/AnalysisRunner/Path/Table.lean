import AnalysisRunner.Table
import AnalysisRunner.Path.Basic

/-!
# Tables keyed by paths

A table keyed by what paths name, not by how they are spelled.  It remembers the
spelling under which a key was first stored, and shows that one.
-/

namespace AnalysisRunner

/-- A table whose keys are paths, compared by their components. -/
abbrev PathTable (α : Type u) := Table PathKey (Path × α)

namespace PathTable

/-- The value of a path. -/
def find? (t : PathTable α) (p : Path) : Option α :=
  (t.get? p.components).map Prod.snd

/-- Whether a path has a value. -/
def has (t : PathTable α) (p : Path) : Bool :=
  t.contains p.components

/-- The table with a value for a path; the spelling first stored is kept. -/
def put (t : PathTable α) (p : Path) (a : α) : PathTable α :=
  let spelled := ((t.get? p.components).map Prod.fst).getD p
  t.insert p.components (spelled, a)

/-- The table without a path. -/
def remove (t : PathTable α) (p : Path) : PathTable α :=
  t.erase p.components

/-- The paths and their values, in the order of paths. -/
def sorted (t : PathTable α) : List (Path × α) :=
  (t.entries.mergeSort fun a b => PathKey.le a.1 b.1).map Prod.snd

/-- The paths, in their order. -/
def sortedPaths (t : PathTable α) : List Path :=
  t.sorted.map Prod.fst

end PathTable

/-- A set of paths, compared by their components. -/
abbrev PathSet := PathTable Unit

namespace PathSet

/-- The set with one more path. -/
def add (s : PathSet) (p : Path) : PathSet :=
  PathTable.put s p ()

end PathSet
end AnalysisRunner
