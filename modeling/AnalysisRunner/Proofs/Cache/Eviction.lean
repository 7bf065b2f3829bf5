import AnalysisRunner.Proofs.Cache.Contents

/-!
# Who stays when a cache shrinks

Entries go in an order, older ones first and among those of one age the smaller keys.  So
who stays depends on how many come after: an entry survives exactly if fewer entries than
there is room for go later than it does (`get?_evict_none`).  An entry that is spared aside,
this is the same for every cache, and it makes eviction easy to compare between caches that
hold the same entries from some age on.

After an eviction the cache fits its capacity (`size_evict_le`).
-/

namespace AnalysisRunner

/-! ## 1. Sizes -/

namespace Table

variable {κ : Type u} {α : Type v}

theorem size_eq (t : Table κ α) : t.size = t.keys.length := by
  rw [size, keys, List.length_map]

variable [DecidableEq κ]

theorem keys_erase (t : Table κ α) (k : κ) : (t.erase k).keys = t.keys.erase k := by
  rw [keys, keys, t.nodup.erase_eq_filter, erase, filter, List.filter_map]
  congr 1
  refine List.filter_congr ?_
  intro e _
  by_cases h : e.1 = k <;> simp [h]

theorem size_erase_le (t : Table κ α) (k : κ) : (t.erase k).size ≤ t.size := by
  rw [size_eq, size_eq, keys_erase]
  exact List.length_erase_le

theorem mem_keys_iff {t : Table κ α} {k : κ} : k ∈ t.keys ↔ ∃ a, t.get? k = some a := by
  rw [keys, List.mem_map]
  constructor
  · rintro ⟨e, he, rfl⟩
    exact ⟨e.2, get?_eq_some_iff.mpr he⟩
  · rintro ⟨a, ha⟩
    exact ⟨(k, a), get?_eq_some_iff.mp ha, rfl⟩

/-- Every key that is taken out makes the table smaller by one. -/
theorem size_foldl_erase (keys : List κ) (t : Table κ α) (hnodup : keys.Nodup)
    (hmem : ∀ k ∈ keys, k ∈ t.keys) :
    (keys.foldl (fun t k => t.erase k) t).size + keys.length = t.size := by
  induction keys generalizing t with
  | nil => rfl
  | cons k rest ih =>
    rw [List.nodup_cons] at hnodup
    have hk := hmem k (List.mem_cons_self ..)
    have hrest : ∀ l ∈ rest, l ∈ (t.erase k).keys := by
      intro l hl
      have hne : l ≠ k := by
        rintro rfl
        exact hnodup.1 hl
      rw [keys_erase, List.mem_erase_of_ne hne]
      exact hmem l (List.mem_cons_of_mem _ hl)
    have hone : (t.erase k).size + 1 = t.size := by
      have hpos := List.length_pos_of_mem hk
      rw [size_eq, size_eq, keys_erase, List.length_erase_of_mem hk]
      omega
    rw [List.foldl_cons, List.length_cons, ← hone, ← ih (t.erase k) hnodup.2 hrest]
    omega

end Table

/-! ## 2. The order in which entries go -/

namespace Cache

theorem goesBefore_iff {a b : Entry} :
    goesBefore a b = true ↔
      a.created.toNat < b.created.toNat ∨
        a.created.toNat = b.created.toNat ∧ a.key ≤ b.key := by
  simp only [goesBefore, Bool.or_eq_true, Bool.and_eq_true, decide_eq_true_eq,
    UInt64.lt_iff_toNat_lt, ← UInt64.toNat_inj]

theorem goesBefore_trans (a b c : Entry) (hab : goesBefore a b = true)
    (hbc : goesBefore b c = true) : goesBefore a c = true := by
  rw [goesBefore_iff] at *
  rcases hab with hab | ⟨hab, hkey⟩ <;> rcases hbc with hbc | ⟨hbc, hkey'⟩
  · exact .inl (by omega)
  · exact .inl (by omega)
  · exact .inl (by omega)
  · exact .inr ⟨by omega, String.le_trans hkey hkey'⟩

theorem goesBefore_total (a b : Entry) : (goesBefore a b || goesBefore b a) = true := by
  rw [Bool.or_eq_true, goesBefore_iff, goesBefore_iff]
  rcases Nat.lt_trichotomy a.created.toNat b.created.toNat with h | h | h
  · exact .inl (.inl h)
  · rcases String.le_total a.key b.key with hkey | hkey
    · exact .inl (.inr ⟨h, hkey⟩)
    · exact .inr (.inr ⟨h.symm, hkey⟩)
  · exact .inr (.inl h)

theorem key_eq_of_goesBefore {a b : Entry} (hab : goesBefore a b = true)
    (hba : goesBefore b a = true) : a.key = b.key := by
  rw [goesBefore_iff] at hab hba
  rcases hab with hab | ⟨hab, hkey⟩ <;> rcases hba with hba | ⟨hba, hkey'⟩
  · omega
  · omega
  · omega
  · exact String.le_antisymm hkey hkey'

/-- Whether an entry goes later than another one. -/
def outlives (e f : Entry) : Bool :=
  goesBefore e f && e.key ≠ f.key

/-- How many entries go later than a given one. -/
def later (es : List Entry) (e : Entry) : Nat :=
  es.countP (outlives e)

theorem later_perm {es fs : List Entry} (h : es.Perm fs) (e : Entry) : later es e = later fs e :=
  h.countP_eq _

/-- In the order in which entries go, those that go later stand behind. -/
theorem later_of_sorted {before after : List Entry} {e : Entry}
    (hsorted : (before ++ e :: after).Pairwise fun a b => goesBefore a b = true)
    (hnodup : ((before ++ e :: after).map Entry.key).Nodup) :
    later (before ++ e :: after) e = after.length := by
  rw [List.pairwise_append, List.pairwise_cons] at hsorted
  rw [List.map_append, List.map_cons, List.nodup_append, List.nodup_cons] at hnodup
  have hbefore : before.countP (outlives e) = 0 := by
    rw [List.countP_eq_zero]
    intro f hf hlater
    rw [outlives, Bool.and_eq_true, decide_eq_true_eq] at hlater
    exact hlater.2 (key_eq_of_goesBefore hlater.1 (hsorted.2.2 f hf e (List.mem_cons_self ..)))
  have hafter : after.countP (outlives e) = after.length := by
    rw [List.countP_eq_length]
    intro f hf
    rw [outlives, Bool.and_eq_true, decide_eq_true_eq]
    refine ⟨hsorted.2.1.1 f hf, ?_⟩
    intro hkey
    exact hnodup.2.1.1 (hkey ▸ List.mem_map_of_mem hf)
  have hself : outlives e e = false := by
    simp [outlives]
  rw [later, List.countP_append, List.countP_cons, hbefore, hafter, hself]
  simp

/-- **The first entries to go are those after which enough others go.** -/
theorem mem_take_iff_of_sorted {es : List Entry} {e : Entry} {n : Nat} (he : e ∈ es)
    (hsorted : es.Pairwise fun a b => goesBefore a b = true) (hnodup : (es.map Entry.key).Nodup) :
    e ∈ es.take (es.length - n) ↔ n ≤ later es e := by
  obtain ⟨before, after, rfl⟩ := List.append_of_mem he
  rw [later_of_sorted hsorted hnodup, List.length_append, List.length_cons]
  rw [List.map_append, List.map_cons, List.nodup_append, List.nodup_cons] at hnodup
  have hnot : e ∉ before := by
    intro hmem
    exact hnodup.2.2 _ (List.mem_map_of_mem hmem) _ (List.mem_cons_self ..) rfl
  constructor
  · intro hmem
    refine Nat.le_of_not_lt fun hlt => hnot ?_
    rw [List.take_append_of_le_length (by omega)] at hmem
    exact List.mem_of_mem_take hmem
  · intro hle
    rw [List.take_append, List.mem_append]
    right
    have hcut : before.length + (after.length + 1) - n - before.length = after.length - n + 1 := by
      omega
    rw [hcut, List.take_succ_cons]
    exact List.mem_cons_self ..

/-! ## 3. Eviction -/

variable {c : Cache} {P : Entry → Prop}

/-- Entries under their own keys have different keys. -/
theorem Holds.nodup_values (h : c.Holds P) : (c.entries.values.map Entry.key).Nodup := by
  have hkeys : c.entries.values.map Entry.key = c.entries.keys := by
    rw [Table.values, Table.keys, List.map_map]
    refine List.map_congr_left ?_
    intro x hx
    exact (h x.1 x.2 (Table.get?_eq_some_iff.mpr hx)).1
  rw [hkeys]
  exact c.entries.nodup

theorem Holds.get?_eq_some_iff (h : c.Holds P) {k : String} {e : Entry} :
    c.entries.get? k = some e ↔ e ∈ c.entries.values ∧ e.key = k := by
  constructor
  · intro he
    exact ⟨Table.mem_values_iff.mpr ⟨k, he⟩, (h k e he).1⟩
  · rintro ⟨he, rfl⟩
    obtain ⟨k, hk⟩ := Table.mem_values_iff.mp he
    rw [(h k e hk).1]
    exact hk

theorem size_eq_length_values (c : Cache) : c.size = c.entries.values.length := by
  rw [size, Table.size, Table.values, List.length_map]

theorem mem_candidates {spared : Option String} {e : Entry} :
    e ∈ c.candidates spared ↔ e ∈ c.entries.values ∧ some e.key ≠ spared := by
  rw [candidates, List.mem_mergeSort, List.mem_filter, decide_eq_true_eq]

theorem sorted_candidates (c : Cache) (spared : Option String) :
    (c.candidates spared).Pairwise fun a b => goesBefore a b = true :=
  List.pairwise_mergeSort goesBefore_trans goesBefore_total _

theorem Holds.nodup_candidates (h : c.Holds P) (spared : Option String) :
    ((c.candidates spared).map Entry.key).Nodup := by
  have hperm : (c.candidates spared).Perm
      (c.entries.values.filter fun e => some e.key ≠ spared) := List.mergeSort_perm _ _
  refine (hperm.map Entry.key).nodup_iff.mpr ?_
  exact h.nodup_values.sublist (List.filter_sublist.map _)

/-- **An entry stays exactly if fewer entries go later than there is room for.** -/
theorem Holds.get?_evict_none (h : c.Holds P) {k : String} {e : Entry} :
    (c.evict none).entries.get? k = some e ↔
      c.entries.get? k = some e ∧ later c.entries.values e < c.options.capacity := by
  have hperm : (c.candidates none).Perm c.entries.values := by
    rw [candidates, List.filter_eq_self.mpr (by simp)]
    exact List.mergeSort_perm _ _
  -- among entries of different keys, to go by the key is to go
  have hgone : ∀ {e}, c.entries.get? k = some e →
      (k ∈ (c.overflow none).map Entry.key ↔ c.options.capacity ≤ later c.entries.values e) := by
    intro e he
    obtain ⟨hmem, rfl⟩ := h.get?_eq_some_iff.mp he
    rw [← later_perm hperm, ← mem_take_iff_of_sorted (hperm.mem_iff.mpr hmem)
        (c.sorted_candidates none) (h.nodup_candidates none),
      hperm.length_eq, ← size_eq_length_values]
    constructor
    · intro hkey
      obtain ⟨f, hf, hsame⟩ := List.mem_map.mp hkey
      have hf' := hperm.mem_iff.mp (List.mem_of_mem_take hf)
      have hget := h.get?_eq_some_iff.mpr ⟨hf', hsame⟩
      rw [he] at hget
      rw [Option.some.inj hget]
      exact hf
    · exact List.mem_map_of_mem
  rw [get?_evict]
  constructor
  · intro he
    split at he
    · cases he
    · rename_i hstay
      exact ⟨he, Nat.lt_of_not_le fun hle => hstay ((hgone he).mpr hle)⟩
  · rintro ⟨he, hlt⟩
    rw [if_neg fun hkey => Nat.not_le_of_lt hlt ((hgone he).mp hkey)]
    exact he

/-- There are enough entries that may go. -/
theorem Holds.length_overflow (h : c.Holds P) (hcapacity : 1 ≤ c.options.capacity)
    (spared : Option String) : (c.overflow spared).length = c.size - c.options.capacity := by
  -- at most the spared entry is no candidate
  have hlength : c.size ≤ (c.candidates spared).length + 1 := by
    have hsplit := c.entries.values.length_eq_countP_add_countP fun e => some e.key ≠ spared
    have hspared :
        c.entries.values.countP (fun e => ¬ decide (some e.key ≠ spared) = true) ≤ 1 := by
      cases spared with
      | none => simp
      | some k =>
        have hcount := List.nodup_iff_count.mp h.nodup_values k
        rw [List.count, List.countP_map] at hcount
        refine Nat.le_trans (Nat.le_of_eq (List.countP_congr ?_)) hcount
        intro e _
        simp
    rw [candidates, List.length_mergeSort, ← List.countP_eq_length_filter, size_eq_length_values]
    omega
  rw [overflow, List.length_take]
  omega

/-- The cache gets smaller by what goes. -/
theorem Holds.size_evict_add (h : c.Holds P) (spared : Option String) :
    (c.evict spared).size + (c.overflow spared).length = c.size := by
  have hfold := Table.size_foldl_erase ((c.overflow spared).map Entry.key) c.entries
    ((h.nodup_candidates spared).sublist ((List.take_sublist _ _).map _)) ?_
  · rw [List.length_map, List.foldl_map] at hfold
    exact hfold
  · intro k hk
    obtain ⟨e, he, rfl⟩ := List.mem_map.mp hk
    have hmem := (mem_candidates.mp (List.mem_of_mem_take he)).1
    exact Table.mem_keys_iff.mpr ⟨e, h.get?_eq_some_iff.mpr ⟨hmem, rfl⟩⟩

/-- **After an eviction the cache fits its capacity.** -/
theorem Holds.size_evict_le (h : c.Holds P) (hcapacity : 1 ≤ c.options.capacity)
    (spared : Option String) : (c.evict spared).size ≤ c.options.capacity := by
  have hsize := h.size_evict_add spared
  have hlength := h.length_overflow hcapacity spared
  omega

end Cache
end AnalysisRunner
