import AnalysisRunner.Table

/-!
# Looking keys up in tables

A table is a list of pairs with distinct keys, so a lookup is membership:
`get?_eq_some_iff` says so, and everything else about `get?` follows from it.  After
that nobody needs to know that a table is a list; a change of a table is what it does
to the lookups.

* `get?_empty`, `get?_insert`, `get?_erase`, `get?_filter`, `get?_mapValues`: one equation per
  operation.
* `get?_foldl_erase`: several keys taken out; `keys_foldl_insert` and
  `get?_foldl_insert_of_mem`: several values put in under different keys;
  `get?_foldl_insert_of_notMem` and `get?_foldl_insert_cases`: under any keys.
* `mem_values_iff`: the values are those that can be looked up.
-/

namespace AnalysisRunner
namespace Table

variable {κ : Type u} {α : Type v}

theorem mem_entries_filter {t : Table κ α} {keep : κ → α → Bool} {e : κ × α} :
    e ∈ (t.filter keep).entries ↔ e ∈ t.entries ∧ keep e.1 e.2 = true := by
  simp [filter]

/-- A key stands for one value. -/
theorem eq_of_mem_entries {t : Table κ α} {k : κ} {a b : α} (ha : (k, a) ∈ t.entries)
    (hb : (k, b) ∈ t.entries) : a = b := by
  obtain ⟨entries, nodup⟩ := t
  induction entries with
  | nil => cases ha
  | cons e rest ih =>
    rw [List.map_cons, List.nodup_cons] at nodup
    rcases List.mem_cons.mp ha with ha | ha <;> rcases List.mem_cons.mp hb with hb | hb
    · exact (Prod.mk.inj (ha.trans hb.symm)).2
    · exact absurd (List.mem_map_of_mem hb) (by rw [← ha] at nodup; exact nodup.1)
    · exact absurd (List.mem_map_of_mem ha) (by rw [← hb] at nodup; exact nodup.1)
    · exact ih nodup.2 ha hb

variable [DecidableEq κ]

/-- A lookup finds a value exactly when the pair is in the table. -/
theorem get?_eq_some_iff {t : Table κ α} {k : κ} {a : α} :
    t.get? k = some a ↔ (k, a) ∈ t.entries := by
  constructor
  · intro h
    obtain ⟨e, he, rfl⟩ := Option.map_eq_some_iff.mp h
    have hk : e.1 = k := by simpa using List.find?_some he
    rw [← hk]
    exact List.mem_of_find?_eq_some he
  · intro h
    cases hfind : t.entries.find? fun e => e.1 = k with
    | none =>
      have hne := List.find?_eq_none.mp hfind _ h
      simp at hne
    | some e =>
      have hk : e.1 = k := by simpa using List.find?_some hfind
      have hmem : (k, e.2) ∈ t.entries := by
        rw [← hk]
        exact List.mem_of_find?_eq_some hfind
      rw [get?, hfind, Option.map_some, eq_of_mem_entries hmem h]

@[simp] theorem get?_empty (k : κ) : (empty : Table κ α).get? k = none := rfl

/-- A filtered table knows what the table knew and what passes the test. -/
theorem get?_filter (t : Table κ α) (keep : κ → α → Bool) (k : κ) :
    (t.filter keep).get? k = (t.get? k).filter (keep k) := by
  apply Option.ext
  intro a
  rw [get?_eq_some_iff, mem_entries_filter, Option.filter_eq_some_iff, get?_eq_some_iff]

theorem get?_mapValues {β : Type w} (t : Table κ α) (f : κ → α → β) (k : κ) :
    (t.mapValues f).get? k = (t.get? k).map (f k) := by
  apply Option.ext
  intro b
  rw [get?_eq_some_iff, Option.map_eq_some_iff, mapValues, List.mem_map]
  constructor
  · rintro ⟨⟨l, a⟩, he, hpair⟩
    obtain ⟨rfl, rfl⟩ := Prod.mk.inj hpair
    exact ⟨a, get?_eq_some_iff.mpr he, rfl⟩
  · rintro ⟨a, ha, rfl⟩
    exact ⟨(k, a), get?_eq_some_iff.mp ha, rfl⟩

theorem get?_erase (t : Table κ α) (k l : κ) :
    (t.erase k).get? l = if l = k then none else t.get? l := by
  rw [erase, get?_filter]
  by_cases h : l = k
  · simp [h]
  · cases t.get? l <;> simp [h]

theorem get?_insert (t : Table κ α) (k l : κ) (a : α) :
    (t.insert k a).get? l = if l = k then some a else t.get? l := by
  by_cases h : l = k
  · simp [h, get?, insert]
  · have hrest : (t.erase k).get? l = t.get? l := by rw [get?_erase, if_neg h]
    rw [if_neg h, ← hrest]
    simp [get?, insert, Ne.symm h]

/-- Taking several keys out of a table. -/
theorem get?_foldl_erase (keys : List κ) (t : Table κ α) (l : κ) :
    (keys.foldl (fun t k => t.erase k) t).get? l = if l ∈ keys then none else t.get? l := by
  induction keys generalizing t with
  | nil => simp
  | cons k rest ih =>
    rw [List.foldl_cons, ih, get?_erase]
    by_cases hr : l ∈ rest
    · simp [hr]
    · simp [hr, List.mem_cons]

theorem mem_values_iff {t : Table κ α} {a : α} : a ∈ t.values ↔ ∃ k, t.get? k = some a := by
  rw [values, List.mem_map]
  constructor
  · rintro ⟨e, he, rfl⟩
    exact ⟨e.1, get?_eq_some_iff.mpr he⟩
  · rintro ⟨k, hk⟩
    exact ⟨(k, a), get?_eq_some_iff.mp hk, rfl⟩

theorem keys_insert_of_notMem {t : Table κ α} {k : κ} (h : k ∉ t.keys) (a : α) :
    (t.insert k a).keys = k :: t.keys := by
  have hsame : (t.erase k).entries = t.entries := by
    refine List.filter_eq_self.mpr ?_
    intro e he
    have hne : e.1 ≠ k := by
      rintro rfl
      exact h (List.mem_map_of_mem he)
    simp [hne]
  show k :: (t.erase k).entries.map Prod.fst = k :: t.entries.map Prod.fst
  rw [hsame]

/-- Values put in under different new keys: the keys are the new ones and the old
ones. -/
theorem keys_foldl_insert {β : Type w} (key : β → κ) (value : β → α) (js : List β) (t : Table κ α)
    (hnodup : (js.map key).Nodup) (hnew : ∀ j ∈ js, key j ∉ t.keys) :
    (js.foldl (fun t j => t.insert (key j) (value j)) t).keys.Perm (js.map key ++ t.keys) := by
  induction js generalizing t with
  | nil => exact List.Perm.refl _
  | cons j js ih =>
    rw [List.map_cons, List.nodup_cons] at hnodup
    have hj := hnew j (List.mem_cons_self ..)
    have hrest : ∀ i ∈ js, key i ∉ (t.insert (key j) (value j)).keys := by
      intro i hi hmem
      rw [keys_insert_of_notMem hj, List.mem_cons] at hmem
      rcases hmem with hsame | hmem
      · exact hnodup.1 (hsame ▸ List.mem_map_of_mem hi)
      · exact hnew i (List.mem_cons_of_mem _ hi) hmem
    refine (ih _ hnodup.2 hrest).trans ?_
    rw [keys_insert_of_notMem hj, List.map_cons, List.cons_append]
    exact List.perm_middle

/-- Values put in under other keys do not change what a key stands for. -/
theorem get?_foldl_insert_of_notMem {β : Type w} (key : β → κ) (value : β → α) {js : List β}
    (t : Table κ α) {k : κ} (hk : k ∉ js.map key) :
    (js.foldl (fun t j => t.insert (key j) (value j)) t).get? k = t.get? k := by
  induction js generalizing t with
  | nil => rfl
  | cons j js ih =>
    rw [List.map_cons, List.mem_cons, not_or] at hk
    rw [List.foldl_cons, ih _ hk.2, get?_insert, if_neg hk.1]

/-- Values put in under different keys can all be looked up. -/
theorem get?_foldl_insert_of_mem {β : Type w} (key : β → κ) (value : β → α) {js : List β}
    (t : Table κ α) (hnodup : (js.map key).Nodup) {j : β} (hj : j ∈ js) :
    (js.foldl (fun t j => t.insert (key j) (value j)) t).get? (key j) = some (value j) := by
  obtain ⟨before, after, rfl⟩ := List.append_of_mem hj
  rw [List.map_append, List.map_cons] at hnodup
  have hafter := (List.nodup_cons.mp (List.nodup_append.mp hnodup).2.1).1
  rw [List.foldl_append, List.foldl_cons, get?_foldl_insert_of_notMem key value _ hafter,
    get?_insert, if_pos rfl]

/-- What is found after values were put in was put in or was there before. -/
theorem get?_foldl_insert_cases {β : Type w} (key : β → κ) (value : β → α) {js : List β}
    {t : Table κ α} {k : κ} {a : α}
    (h : (js.foldl (fun t j => t.insert (key j) (value j)) t).get? k = some a) :
    (∃ j ∈ js, key j = k ∧ value j = a) ∨ t.get? k = some a := by
  induction js generalizing t with
  | nil => exact .inr h
  | cons j js ih =>
    rcases ih h with ⟨i, hi, hfound⟩ | hfound
    · exact .inl ⟨i, List.mem_cons_of_mem _ hi, hfound⟩
    · rw [get?_insert] at hfound
      by_cases hk : k = key j
      · rw [if_pos hk] at hfound
        exact .inl ⟨j, List.mem_cons_self .., hk.symm, Option.some.inj hfound⟩
      · rw [if_neg hk] at hfound
        exact .inr hfound

end Table
end AnalysisRunner
