/-!
# Finite tables

A table assigns values to finitely many keys.  It is a list of pairs with no
repeated key, and the invariant is part of the type, so the number of keys is the
length of the list and a lookup has at most one answer.

The order of the pairs carries no meaning; whatever shows a table sorts it.
-/

namespace AnalysisRunner

/-- A finite table from `κ` to `α`. -/
structure Table (κ : Type u) (α : Type v) where
  entries : List (κ × α)
  nodup : (entries.map Prod.fst).Nodup

namespace Table

variable {κ : Type u} {α : Type v}

/-- The table without entries. -/
def empty : Table κ α :=
  ⟨[], List.nodup_nil⟩

instance : Inhabited (Table κ α) :=
  ⟨empty⟩

/-- The number of keys. -/
def size (t : Table κ α) : Nat :=
  t.entries.length

/-- The keys. -/
def keys (t : Table κ α) : List κ :=
  t.entries.map Prod.fst

/-- The values. -/
def values (t : Table κ α) : List α :=
  t.entries.map Prod.snd

/-- The entries that pass a test. -/
def filter (t : Table κ α) (keep : κ → α → Bool) : Table κ α :=
  ⟨t.entries.filter fun e => keep e.1 e.2,
    t.nodup.sublist (List.filter_sublist.map Prod.fst)⟩

/-- The same keys with other values. -/
def mapValues (t : Table κ α) (f : κ → α → β) : Table κ β :=
  ⟨t.entries.map fun e => (e.1, f e.1 e.2), by
    simpa [List.map_map, Function.comp_def] using t.nodup⟩

variable [DecidableEq κ]

/-- The value of a key. -/
def get? (t : Table κ α) (k : κ) : Option α :=
  (t.entries.find? fun e => e.1 = k).map Prod.snd

/-- Whether a key has a value. -/
def contains (t : Table κ α) (k : κ) : Bool :=
  (t.get? k).isSome

/-- The table without a key. -/
def erase (t : Table κ α) (k : κ) : Table κ α :=
  t.filter fun key _ => key ≠ k

/-- The table with a value for a key, which replaces an older one. -/
def insert (t : Table κ α) (k : κ) (a : α) : Table κ α :=
  ⟨(k, a) :: (t.erase k).entries, by
    refine List.nodup_cons.2 ⟨?_, (t.erase k).nodup⟩
    simp [erase, filter]⟩

end Table
end AnalysisRunner
