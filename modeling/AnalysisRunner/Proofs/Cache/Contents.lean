import AnalysisRunner.Cache.Basic
import AnalysisRunner.Proofs.Lookup

/-!
# What the operations do to the contents of a cache

The contents of a cache are what can be looked up under a key, counts and options
apart.  Here every operation is described by what it does to them.

* Eviction takes out the entries of the overflow and nothing else (`get?_evict`), and
  never the key it is told to spare (`key_ne_of_mem_overflow`).
* `get?_set`, `get?_get`, `get?_invalidate`, `get?_clear`, `get?_cleanup`: one
  description per operation.
* `Holds` is a statement about all entries, each under its own key.  Operations that add
  nothing keep it, and `set` keeps it if the new entry satisfies it.
-/

namespace AnalysisRunner
namespace Cache

/-- The entry that a result is put in as. -/
def entryOf (now : UInt64) (file : Path) (content configHash : String) (result : Json) : Entry :=
  ⟨file.normal, Fingerprint.ofText content, configHash, result, now⟩

/-- A cache with one more entry, before anything has to go. -/
def put (c : Cache) (e : Entry) : Cache :=
  { c with entries := c.entries.insert e.key e }

/-- The keys that go when an entry is put in. -/
def displaced (c : Cache) (e : Entry) : List String :=
  ((c.put e).overflow (some e.key)).map Entry.key

theorem set_eq (c : Cache) (now : UInt64) (file : Path) (content configHash : String)
    (result : Json) :
    c.set now file content configHash result =
      (c.put (entryOf now file content configHash result)).evict (some file.normal) := rfl

/-! ## 1. Eviction -/

theorem mem_values_of_mem_overflow {c : Cache} {spared : Option String} {e : Entry}
    (h : e ∈ c.overflow spared) : e ∈ c.entries.values ∧ some e.key ≠ spared := by
  have hmem : e ∈ c.candidates spared := List.mem_of_mem_take h
  rw [candidates, List.mem_mergeSort, List.mem_filter] at hmem
  exact ⟨hmem.1, by simpa using hmem.2⟩

/-- The spared key does not go. -/
theorem key_ne_of_mem_overflow {c : Cache} {k : String} {e : Entry}
    (h : e ∈ c.overflow (some k)) : e.key ≠ k := by
  intro hk
  exact (mem_values_of_mem_overflow h).2 (by rw [hk])

/-- Eviction takes the overflow out and leaves the rest. -/
theorem get?_evict (c : Cache) (spared : Option String) (k : String) :
    (c.evict spared).entries.get? k =
      if k ∈ (c.overflow spared).map Entry.key then none else c.entries.get? k := by
  have hfold : (c.evict spared).entries =
      ((c.overflow spared).map Entry.key).foldl (fun t k => t.erase k) c.entries := by
    rw [List.foldl_map]
    rfl
  rw [hfold, Table.get?_foldl_erase]

/-! ## 2. Contents after an operation -/

theorem get?_put (c : Cache) (e : Entry) (k : String) :
    (c.put e).entries.get? k = if k = e.key then some e else c.entries.get? k :=
  Table.get?_insert c.entries e.key k e

/-- After a result is put in, its key holds it, and another key holds what it held
unless it had to go. -/
theorem get?_set (c : Cache) (now : UInt64) (file : Path) (content configHash : String)
    (result : Json) (k : String) :
    (c.set now file content configHash result).entries.get? k =
      if k = file.normal then some (entryOf now file content configHash result)
      else if k ∈ c.displaced (entryOf now file content configHash result) then none
      else c.entries.get? k := by
  rw [set_eq, get?_evict, get?_put]
  show (if k ∈ c.displaced (entryOf now file content configHash result) then none
    else if k = file.normal then some (entryOf now file content configHash result)
    else c.entries.get? k) = _
  by_cases hk : k = file.normal
  · have hstay : k ∉ c.displaced (entryOf now file content configHash result) := by
      intro hmem
      obtain ⟨e, he, hkey⟩ := List.mem_map.mp hmem
      exact key_ne_of_mem_overflow he (hkey.trans hk)
    rw [if_neg hstay]
    simp only [hk, if_true]
  · simp only [hk, if_false]

/-- A question drops the entry it is about if that is too old, and nothing else. -/
theorem get?_get (c : Cache) (now : UInt64) (file : Path) (content configHash : String)
    (k : String) :
    (c.get now file content configHash).2.entries.get? k =
      (c.entries.get? k).filter fun e =>
        !(k = file.normal && e.isExpired now c.options.lifetime) := by
  unfold get lookup
  cases hfile : c.entries.get? file.normal with
  | none =>
    by_cases hk : k = file.normal
    · simp [hk, hfile]
    · cases c.entries.get? k <;> simp [hk, Option.filter]
  | some e =>
    by_cases hk : k = file.normal
    · by_cases hold : e.isExpired now c.options.lifetime
      · simp [hk, hfile, hold, Table.get?_erase, Option.filter]
      · by_cases hfit : e.isFor (Fingerprint.ofText content) configHash <;>
          simp [hk, hfile, hold, hfit, Option.filter]
    · have hsame : (c.entries.get? k).filter
          (fun e => !(k = file.normal && e.isExpired now c.options.lifetime)) =
            c.entries.get? k := by
        cases c.entries.get? k <;> simp [hk, Option.filter]
      rw [hsame]
      by_cases hold : e.isExpired now c.options.lifetime
      · simp [hold, Table.get?_erase, hk]
      · by_cases hfit : e.isFor (Fingerprint.ofText content) configHash <;> simp [hold, hfit]

theorem get?_invalidate (c : Cache) (file : Path) (k : String) :
    (c.invalidate file).entries.get? k = if k = file.normal then none else c.entries.get? k :=
  Table.get?_erase c.entries file.normal k

theorem get?_clear (c : Cache) (k : String) : c.clear.entries.get? k = none := rfl

/-- Cleaning drops what is too old, and nothing else. -/
theorem get?_cleanup (c : Cache) (now : UInt64) (k : String) :
    (c.cleanup now).2.entries.get? k =
      (c.entries.get? k).filter fun e => !e.isExpired now c.options.lifetime :=
  Table.get?_filter c.entries (fun _ e => !e.isExpired now c.options.lifetime) k

@[simp] theorem options_set (c : Cache) (now : UInt64) (file : Path) (content configHash : String)
    (result : Json) : (c.set now file content configHash result).options = c.options := rfl

@[simp] theorem options_get (c : Cache) (now : UInt64) (file : Path) (content configHash : String) :
    (c.get now file content configHash).2.options = c.options := by
  unfold get
  cases c.lookup now file content configHash <;> rfl

/-! ## 3. Statements about all entries -/

/-- Whether every entry stands under its own key and satisfies a condition. -/
def Holds (c : Cache) (P : Entry → Prop) : Prop :=
  ∀ k e, c.entries.get? k = some e → e.key = k ∧ P e

theorem holds_new (options : CacheOptions) (P : Entry → Prop) : (new options).Holds P := by
  intro k e he
  cases he

namespace Holds

variable {c : Cache} {P : Entry → Prop}

theorem of_mem_values (h : c.Holds P) {e : Entry} (he : e ∈ c.entries.values) : P e := by
  obtain ⟨k, hk⟩ := Table.mem_values_iff.mp he
  exact (h k e hk).2

theorem evict (h : c.Holds P) (spared : Option String) : (c.evict spared).Holds P := by
  intro k e he
  rw [get?_evict] at he
  split at he
  · cases he
  · exact h k e he

theorem set (h : c.Holds P) {now : UInt64} {file : Path} {content configHash : String}
    {result : Json} (hnew : P (entryOf now file content configHash result)) :
    (c.set now file content configHash result).Holds P := by
  intro k e he
  rw [get?_set] at he
  split at he
  · rename_i hk
    obtain rfl := Option.some.inj he
    exact ⟨hk.symm, hnew⟩
  · split at he
    · cases he
    · exact h k e he

theorem get (h : c.Holds P) (now : UInt64) (file : Path) (content configHash : String) :
    (c.get now file content configHash).2.Holds P := by
  intro k e he
  rw [get?_get, Option.filter_eq_some_iff] at he
  exact h k e he.1

theorem invalidate (h : c.Holds P) (file : Path) : (c.invalidate file).Holds P := by
  intro k e he
  rw [get?_invalidate] at he
  split at he
  · cases he
  · exact h k e he

end Holds

/-! ## 4. Answers -/

/-- A question is answered exactly by an entry for its key that fits it and is not too
old. -/
theorem get_eq_some_iff {c : Cache} {now : UInt64} {file : Path} {content configHash : String}
    {result : Json} :
    (c.get now file content configHash).1 = some result ↔
      ∃ e, c.entries.get? file.normal = some e ∧ e.contentHash = Fingerprint.ofText content ∧
        e.configHash = configHash ∧ e.result = result ∧
        e.age now < c.options.lifetime.ticks := by
  unfold get lookup
  cases hfile : c.entries.get? file.normal with
  | none => simp
  | some e =>
    by_cases hold : e.isExpired now c.options.lifetime
    · have hage : ¬ e.age now < c.options.lifetime.ticks := by
        simpa [Entry.isExpired] using hold
      simp [hold, hage]
    · have hage : e.age now < c.options.lifetime.ticks := by
        simpa [Entry.isExpired] using hold
      by_cases hfit : e.isFor (Fingerprint.ofText content) configHash
      · have hparts : e.contentHash = Fingerprint.ofText content ∧ e.configHash = configHash := by
          simpa [Entry.isFor] using hfit
        simp [hold, hfit, hage, hparts.1, hparts.2]
      · have hparts :
            ¬ (e.contentHash = Fingerprint.ofText content ∧ e.configHash = configHash) := by
          simpa [Entry.isFor] using hfit
        simp only [hold, hfit, Bool.false_eq_true, if_false]
        constructor
        · intro h
          cases h
        · rintro ⟨e', he, hcontent, hconfig, -⟩
          rw [← Option.some.inj he] at hcontent hconfig
          exact absurd ⟨hcontent, hconfig⟩ hparts

/-- Whether a result would be served, and the result, are one question. -/
theorem has_eq_isSome_get (c : Cache) (now : UInt64) (file : Path) (content configHash : String) :
    c.has now file content configHash = (c.get now file content configHash).1.isSome := by
  unfold has get
  cases c.lookup now file content configHash <;> rfl

end Cache
end AnalysisRunner
