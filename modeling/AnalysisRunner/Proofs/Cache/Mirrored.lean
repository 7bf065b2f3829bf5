import Mathlib.Data.List.Nodup
import AnalysisRunner.Proofs.Cache.Eviction
import AnalysisRunner.Proofs.Cache.Saved

/-!
# A cache and its stored entries

A cache in use and the entries it was last saved as drift apart.  Entries that are too old
are dropped from the cache when somebody asks for them, and a list that is longer than the
cache has room for is never taken over whole.  None of this is saved.

What stays true is `Mirrors`: the cache holds only stored entries, it fits its capacity, and
of the entries that are not too old it holds exactly those after which fewer stored entries go
than there is room for.  That says nothing about old entries, so dropping some of them keeps
it (`Mirrors.of_sheds`), and so does time (`Mirrors.mono`).

A cache that is restored mirrors what it was restored from (`mirrors_restore`).  The reason
is that an entry goes later only if it is no older: among the entries that count for one
which is not too old, none is too old, so it does not matter which old ones are around.  Hence
two caches that mirror one list agree on everything that is not too old, and a new cache
that is loaded holds just that (`Mirrors.get?_load_new`).
-/

namespace AnalysisRunner

/-! ## 1. Age -/

namespace Entry

/-- What is not too old is younger than the lifetime in force. -/
theorem isExpired_eq_false_iff {e : Entry} {now : UInt64} {lifetime : Duration} :
    e.isExpired now lifetime = false ↔ e.age now < lifetime.ticks := by
  rw [isExpired, decide_eq_false_iff_not, Nat.not_le]

/-- Time makes no entry younger. -/
theorem isExpired_mono {e : Entry} {now now' : UInt64} {lifetime : Duration}
    (h : now.toNat ≤ now'.toNat) (hyoung : e.isExpired now' lifetime = false) :
    e.isExpired now lifetime = false := by
  rw [isExpired_eq_false_iff, age] at hyoung ⊢
  omega

/-- What goes later than an entry is no older. -/
theorem isExpired_of_outlives {e f : Entry} {now : UInt64} {lifetime : Duration}
    (h : Cache.outlives e f = true) (hyoung : e.isExpired now lifetime = false) :
    f.isExpired now lifetime = false := by
  rw [Cache.outlives, Bool.and_eq_true, Cache.goesBefore_iff] at h
  rw [isExpired_eq_false_iff, age] at hyoung ⊢
  omega

end Entry

namespace Cache

variable {c c' : Cache} {es : List Entry} {now : UInt64}

/-- How many entries go later depends on these entries alone. -/
theorem later_congr {fs : List Entry} {e : Entry} (hes : (es.map Entry.key).Nodup)
    (hfs : (fs.map Entry.key).Nodup) (h : ∀ f, outlives e f = true → (f ∈ es ↔ f ∈ fs)) :
    later es e = later fs e := by
  have hperm : (es.filter (outlives e)).Perm (fs.filter (outlives e)) := by
    refine (List.perm_ext_iff_of_nodup ((hes.of_map _).filter _)
      ((hfs.of_map _).filter _)).mpr ?_
    intro f
    rw [List.mem_filter, List.mem_filter]
    exact ⟨fun hf => ⟨(h f hf.2).mp hf.1, hf.2⟩, fun hf => ⟨(h f hf.2).mpr hf.1, hf.2⟩⟩
  rw [later, later, List.countP_eq_length_filter, List.countP_eq_length_filter, hperm.length_eq]

/-- An entry does not go later than itself. -/
theorem later_lt_length {e : Entry} (he : e ∈ es) : later es e < es.length := by
  have hself : outlives e e = false := by
    simp [outlives]
  have hle := List.countP_le_length (p := outlives e) (l := es)
  refine Nat.lt_of_le_of_ne hle ?_
  intro hall
  have := List.countP_eq_length.mp hall e he
  rw [hself] at this
  cases this

/-! ## 2. Mirrors -/

/-- Whether a cache holds of a list of entries what it has room for, as far as they are not
too old. -/
structure Mirrors (c : Cache) (now : UInt64) (es : List Entry) : Prop where
  nodup : (es.map Entry.key).Nodup
  holds : c.Holds (· ∈ es)
  fits : c.size ≤ c.options.capacity
  young : ∀ e, e.isExpired now c.options.lifetime = false →
    (c.entries.get? e.key = some e ↔ e ∈ es ∧ later es e < c.options.capacity)

theorem Mirrors.mono {now' : UInt64} (h : c.Mirrors now es) (hle : now.toNat ≤ now'.toNat) :
    c.Mirrors now' es :=
  ⟨h.nodup, h.holds, h.fits, fun e he => h.young e (Entry.isExpired_mono hle he)⟩

/-- A cache mirrors the entries it is saved as. -/
theorem mirrors_sortedEntries {P : Entry → Prop} (h : c.Holds P)
    (hfits : c.size ≤ c.options.capacity) (now : UInt64) : c.Mirrors now c.sortedEntries := by
  have hperm := c.perm_sortedEntries
  refine ⟨(hperm.map Entry.key).nodup_iff.mpr h.nodup_values, ?_, hfits, ?_⟩
  · intro k e he
    exact ⟨(h k e he).1, mem_sortedEntries.mpr (Table.mem_values_iff.mpr ⟨k, he⟩)⟩
  · intro e _
    rw [h.get?_eq_some_iff, mem_sortedEntries]
    constructor
    · rintro ⟨he, -⟩
      refine ⟨he, Nat.lt_of_lt_of_le (later_lt_length (mem_sortedEntries.mpr he)) ?_⟩
      rw [hperm.length_eq, ← size_eq_length_values]
      exact hfits
    · rintro ⟨he, -⟩
      exact ⟨he, rfl⟩

/-- An empty cache mirrors the empty list. -/
theorem mirrors_nil (h : c.Holds (· ∈ [])) (now : UInt64) : c.Mirrors now [] := by
  have hempty : c.entries.values = [] := by
    refine List.eq_nil_iff_forall_not_mem.mpr fun e he => ?_
    cases h.of_mem_values he
  refine ⟨List.nodup_nil, h, ?_, ?_⟩
  · rw [size_eq_length_values, hempty]
    exact Nat.zero_le _
  · intro e _
    rw [h.get?_eq_some_iff, hempty]
    simp

/-! ## 3. Dropping what is too old -/

/-- Whether a cache has lost nothing but entries that are too old. -/
structure Sheds (now : UInt64) (c c' : Cache) : Prop where
  options : c'.options = c.options
  size_le : c'.size ≤ c.size
  kept : ∀ k e, c'.entries.get? k = some e → c.entries.get? k = some e
  young : ∀ k e, c.entries.get? k = some e → e.isExpired now c.options.lifetime = false →
    c'.entries.get? k = some e

theorem Sheds.refl (now : UInt64) (c : Cache) : Sheds now c c :=
  ⟨rfl, Nat.le_refl _, fun _ _ he => he, fun _ _ he _ => he⟩

theorem Sheds.trans {c'' : Cache} (h : Sheds now c c') (h' : Sheds now c' c'') :
    Sheds now c c'' where
  options := h'.options.trans h.options
  size_le := Nat.le_trans h'.size_le h.size_le
  kept k e he := h.kept k e (h'.kept k e he)
  young k e he hyoung := h'.young k e (h.young k e he hyoung) (h.options ▸ hyoung)

theorem sheds_get (c : Cache) (now : UInt64) (file : Path) (content configHash : String) :
    Sheds now c (c.get now file content configHash).2 := by
  refine ⟨options_get c now file content configHash, ?_, ?_, ?_⟩
  · unfold get
    cases c.lookup now file content configHash with
    | expired => exact Table.size_erase_le _ _
    | _ => exact Nat.le_refl _
  · intro k e he
    rw [get?_get, Option.filter_eq_some_iff] at he
    exact he.1
  · intro k e he hyoung
    rw [get?_get, Option.filter_eq_some_iff]
    exact ⟨he, by simp [hyoung]⟩

theorem Mirrors.of_sheds (h : c.Mirrors now es) (hsheds : Sheds now c c') : c'.Mirrors now es := by
  refine ⟨h.nodup, fun k e he => h.holds k e (hsheds.kept k e he), ?_, ?_⟩
  · rw [hsheds.options]
    exact Nat.le_trans hsheds.size_le h.fits
  · intro e hyoung
    rw [hsheds.options] at hyoung ⊢
    rw [← h.young e hyoung]
    exact ⟨hsheds.kept e.key e, fun he => hsheds.young e.key e he hyoung⟩

/-! ## 4. Restoring -/

/-- A cache with the good ones of saved entries, before it shrinks. -/
def merged (c : Cache) (now : UInt64) (es : List Entry) (r : Option SaveRecord) : Cache :=
  { c with
    entries := (c.fresh now es).foldl (fun t e => t.insert e.key e) c.entries
    hits := (r.map fun r => r.hits.toNat).getD c.hits
    misses := (r.map fun r => r.misses.toNat).getD c.misses }

theorem restore_eq (c : Cache) (now : UInt64) (es : List Entry) (r : Option SaveRecord) :
    c.restore now es r = (c.merged now es r).evict none := rfl

theorem mem_fresh {e : Entry} :
    e ∈ c.fresh now es ↔ e ∈ es ∧ e.isExpired now c.options.lifetime = false := by
  rw [fresh, List.mem_filter, Bool.not_eq_true']

/-- Merging adds the entries that are not too old. -/
theorem Holds.get?_merged (h : c.Holds (· ∈ es)) (hnodup : (es.map Entry.key).Nodup)
    (r : Option SaveRecord) {k : String} {e : Entry} :
    (c.merged now es r).entries.get? k = some e ↔
      (e ∈ es ∧ e.key = k) ∧
        (e.isExpired now c.options.lifetime = false ∨ c.entries.get? k = some e) := by
  have hfresh : ((c.fresh now es).map Entry.key).Nodup :=
    hnodup.sublist (List.filter_sublist.map _)
  constructor
  · intro he
    rcases Table.get?_foldl_insert_cases Entry.key id he with ⟨f, hf, hkey, rfl⟩ | he
    · obtain ⟨hmem, hyoung⟩ := mem_fresh.mp hf
      exact ⟨⟨hmem, hkey⟩, .inl hyoung⟩
    · obtain ⟨hkey, hmem⟩ := h k e he
      exact ⟨⟨hmem, hkey⟩, .inr he⟩
  · rintro ⟨⟨hmem, rfl⟩, hcase⟩
    cases hold : e.isExpired now c.options.lifetime with
    | false =>
      exact Table.get?_foldl_insert_of_mem Entry.key id _ hfresh (mem_fresh.mpr ⟨hmem, hold⟩)
    | true =>
      -- no other stored entry has the key of an old one
      have hother : e.key ∉ (c.fresh now es).map Entry.key := by
        intro hkey
        obtain ⟨f, hf, hsame⟩ := List.mem_map.mp hkey
        obtain ⟨hf, hyoung⟩ := mem_fresh.mp hf
        rw [List.inj_on_of_nodup_map hnodup hf hmem hsame, hold] at hyoung
        cases hyoung
      rw [hold] at hcase
      exact (Table.get?_foldl_insert_of_notMem Entry.key id _ hother).trans
        (hcase.resolve_left Bool.noConfusion)

/-- **A cache that is restored mirrors the stored entries**, if it held only stored ones. -/
theorem mirrors_restore (h : c.Holds (· ∈ es)) (hnodup : (es.map Entry.key).Nodup)
    (hcapacity : 1 ≤ c.options.capacity) (now : UInt64) (r : Option SaveRecord) :
    (c.restore now es r).Mirrors now es := by
  have hmerged : (c.merged now es r).Holds (· ∈ es) := by
    intro k e he
    obtain ⟨⟨hmem, hkey⟩, -⟩ := (h.get?_merged hnodup r).mp he
    exact ⟨hkey, hmem⟩
  rw [restore_eq]
  refine ⟨hnodup, hmerged.evict none, hmerged.size_evict_le hcapacity none, ?_⟩
  intro e hyoung
  have hlater : later (c.merged now es r).entries.values e = later es e := by
    refine later_congr hmerged.nodup_values hnodup ?_
    intro f hf
    rw [Table.mem_values_iff]
    constructor
    · rintro ⟨k, hk⟩
      exact (hmerged k f hk).2
    · intro hmem
      have hyoung' := Entry.isExpired_of_outlives hf hyoung
      exact ⟨f.key, (h.get?_merged hnodup r).mpr ⟨⟨hmem, rfl⟩, .inl hyoung'⟩⟩
  have hget : (c.merged now es r).entries.get? e.key = some e ↔ e ∈ es := by
    rw [h.get?_merged hnodup r]
    exact ⟨fun he => he.1.1, fun he => ⟨⟨he, rfl⟩, .inl hyoung⟩⟩
  rw [hmerged.get?_evict_none, hget, hlater]
  exact Iff.rfl

/-- **A new cache that is restored holds what is not too old**, as every cache that mirrors the
stored entries holds it. -/
theorem Mirrors.get?_restore_new {options : CacheOptions} (h : c.Mirrors now es)
    (hoptions : c.options = (new options).options) (r : Option SaveRecord)
    {k : String} {e : Entry} :
    ((new options).restore now es r).entries.get? k = some e ↔
      c.entries.get? k = some e ∧ e.isExpired now options.lifetime = false := by
  have hnew := holds_new options (· ∈ es)
  have hmirrors := mirrors_restore hnew h.nodup (Nat.le_max_right _ _) now r
  have hagree : ∀ e : Entry, e.isExpired now options.lifetime = false →
      (((new options).restore now es r).entries.get? e.key = some e ↔
        c.entries.get? e.key = some e) := by
    intro e hyoung
    have hcache := h.young e (by rw [hoptions]; exact hyoung)
    rw [hoptions] at hcache
    exact (hmirrors.young e hyoung).trans hcache.symm
  constructor
  · intro he
    -- a new cache holds nothing but what was merged
    have hyoung : e.isExpired now options.lifetime = false := by
      have hmerged := he
      rw [restore_eq, get?_evict] at hmerged
      split at hmerged
      · cases hmerged
      · rcases ((hnew.get?_merged h.nodup r).mp hmerged).2 with hyoung | hnone
        · exact hyoung
        · cases hnone
    obtain ⟨rfl, -⟩ := hmirrors.holds k e he
    exact ⟨(hagree e hyoung).mp he, hyoung⟩
  · rintro ⟨he, hyoung⟩
    obtain ⟨rfl, -⟩ := h.holds k e he
    exact (hagree e hyoung).mpr he

/-! ## 5. Loading -/

variable {disk : FileTree}

/-- **A cache that holds only stored entries mirrors them after it is loaded.** -/
theorem mirrors_load (h : c.Holds (· ∈ es)) (hnodup : (es.map Entry.key).Nodup)
    (hcapacity : 1 ≤ c.options.capacity) (hpersistent : c.options.persistent = true)
    (hstores : Archive.Stores c.options.directory disk es) (now : UInt64) :
    ∃ n c', c.load now disk = (.ok n, c') ∧ c'.options = c.options ∧ c'.Mirrors now es := by
  rcases hstores with ⟨hread, rfl⟩ | hread
  · refine ⟨0, c, ?_, rfl, mirrors_nil h now⟩
    rw [load, if_pos hpersistent, hread]
  · exact ⟨_, _, load_of_readEntries hpersistent hread now, rfl,
      mirrors_restore h hnodup hcapacity now _⟩

/-- **A new cache that is loaded holds what is not too old** of every cache that mirrors the
stored entries. -/
theorem Mirrors.get?_load_new {options : CacheOptions} (h : c.Mirrors now es)
    (hoptions : c.options = (new options).options) (hpersistent : options.persistent = true)
    (hstores : Archive.Stores options.directory disk es) :
    ∃ n c', (new options).load now disk = (.ok n, c') ∧
      ∀ k e, c'.entries.get? k = some e ↔
        c.entries.get? k = some e ∧ e.isExpired now options.lifetime = false := by
  rcases hstores with ⟨hread, rfl⟩ | hread
  · refine ⟨0, new options, ?_, ?_⟩
    · rw [load, if_pos (show (new options).options.persistent = true from hpersistent),
        show (new options).options.directory = options.directory from rfl, hread]
    · intro k e
      constructor
      · intro he
        cases he
      · rintro ⟨he, -⟩
        cases (h.holds k e he).2
  · exact ⟨_, _, load_of_readEntries (c := new options) hpersistent hread now,
      fun k e => h.get?_restore_new hoptions _⟩

end Cache
end AnalysisRunner
