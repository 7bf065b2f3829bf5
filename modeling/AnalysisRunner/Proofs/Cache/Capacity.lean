import Mathlib.Data.List.Induction
import AnalysisRunner.Proofs.Cache.History
import AnalysisRunner.Proofs.Cache.Mirrored
import AnalysisRunner.Proofs.Text.Order

/-!
# A cache keeps to its capacity

A cache gets an entry when a result is put in, and any number of them when it is loaded.  Both
times it then gives up what it has no room for, and `Trimmed` says what that is: as many entries
as are too many, all of them before every other one in the order of time and, at one time, of
the bytes of the path.  A result that was just put in does not count among them, however the
clock stands.

The cache lives beside a disk here (`StoreState`): it is used, saved and loaded in any order, and
the disk changes in between as it likes.  What is found on it is not trusted, entries with
one path twice or of a future time included.  In all this the cache fits its capacity and
keeps every entry under its own path (`Cache.Fits`).
-/

namespace AnalysisRunner

/-! ## 1. What goes -/

/-- The order in which entries go: by the time they were made, then by the bytes of the path. -/
def Entry.Precedes (e f : Entry) : Prop :=
  e.created.toNat < f.created.toNat ∨
    e.created.toNat = f.created.toNat ∧ Bytes.ofText e.key < Bytes.ofText f.key

theorem Entry.precedes_of_goesBefore {e f : Entry} (h : Cache.goesBefore e f = true)
    (hne : e.key ≠ f.key) : e.Precedes f := by
  rcases Cache.goesBefore_iff.mp h with htime | ⟨htime, hkey⟩
  · exact .inl htime
  · refine .inr ⟨htime, Bytes.ofText_lt_iff.mpr ?_⟩
    exact Decidable.byContradiction fun hnot =>
      hne (String.le_antisymm hkey (String.not_lt.mp hnot))

namespace Cache

variable {c c' : Cache} {P : Entry → Prop}

/-- Whether a cache that has grown has given up some entries for want of room: as many as are
too many, the first in their order, and not the one that is spared.  The others stay, and those
that go are counted. -/
structure Trimmed (grown : Cache) (spared : Option String) (trimmed : Cache) (gone : List Entry) :
    Prop where
  distinct : (gone.map Entry.key).Nodup
  held : ∀ e ∈ gone, grown.entries.get? e.key = some e ∧ some e.key ≠ spared
  enough : gone.length = grown.size - grown.options.capacity
  first : ∀ e ∈ gone, ∀ k f, grown.entries.get? k = some f → some k ≠ spared → f ∉ gone →
    e.Precedes f
  kept : ∀ k, trimmed.entries.get? k =
    if k ∈ gone.map Entry.key then none else grown.entries.get? k
  counted : trimmed.evictions = grown.evictions + gone.length

/-- **Eviction gives up the first entries in their order.** -/
theorem Holds.trimmed_evict (h : c.Holds P) (hcapacity : 1 ≤ c.options.capacity)
    (spared : Option String) : Trimmed c spared (c.evict spared) (c.overflow spared) where
  distinct := (h.nodup_candidates spared).sublist ((List.take_sublist _ _).map _)
  held e he := by
    obtain ⟨hmem, hspared⟩ := mem_candidates.mp (List.mem_of_mem_take he)
    exact ⟨h.get?_eq_some_iff.mpr ⟨hmem, rfl⟩, hspared⟩
  enough := h.length_overflow hcapacity spared
  first e he k f hf hspared hstays := by
    obtain ⟨hmem, rfl⟩ := h.get?_eq_some_iff.mp hf
    -- the candidates are in order, and what does not go stands behind what goes
    have hsorted := c.sorted_candidates spared
    have hsplit := List.take_append_drop (c.size - c.options.capacity) (c.candidates spared)
    have hcandidate : f ∈ c.candidates spared := mem_candidates.mpr ⟨hmem, hspared⟩
    rw [← hsplit] at hsorted hcandidate
    have hbehind := (List.mem_append.mp hcandidate).resolve_left hstays
    refine Entry.precedes_of_goesBefore ((List.pairwise_append.mp hsorted).2.2 e he f hbehind) ?_
    intro hkey
    have hnodup := h.nodup_candidates spared
    rw [← hsplit, List.map_append, List.nodup_append] at hnodup
    exact hnodup.2.2 _ (List.mem_map_of_mem he) _ (List.mem_map_of_mem hbehind) hkey
  kept k := get?_evict c spared k
  counted := rfl

/-! ## 2. What fits -/

/-- Whether a cache keeps to its capacity, and every entry to its own path. -/
structure Fits (c : Cache) : Prop where
  filed : c.Holds fun _ => True
  room : 1 ≤ c.options.capacity
  size_le : c.size ≤ c.options.capacity

namespace Fits

theorem new (options : CacheOptions) : (Cache.new options).Fits :=
  ⟨holds_new options _, Nat.le_max_right _ _, Nat.zero_le _⟩

/-- A cache that only loses entries goes on to fit. -/
theorem of_kept (h : c.Fits) (hoptions : c'.options = c.options) (hsize : c'.size ≤ c.size)
    (hkept : ∀ k e, c'.entries.get? k = some e → c.entries.get? k = some e) : c'.Fits where
  filed k e he := h.filed k e (hkept k e he)
  room := hoptions ▸ h.room
  size_le := hoptions ▸ Nat.le_trans hsize h.size_le

theorem evict (hfiled : c.Holds fun _ => True) (hroom : 1 ≤ c.options.capacity)
    (spared : Option String) : (c.evict spared).Fits :=
  ⟨hfiled.evict spared, hroom, hfiled.size_evict_le hroom spared⟩

theorem get (h : c.Fits) (now : UInt64) (file : Path) (content configHash : String) :
    (c.get now file content configHash).2.Fits :=
  h.of_kept (sheds_get c now file content configHash).options
    (sheds_get c now file content configHash).size_le
    (sheds_get c now file content configHash).kept

theorem invalidate (h : c.Fits) (file : Path) : (c.invalidate file).Fits := by
  refine h.of_kept rfl (Table.size_erase_le _ _) fun k e he => ?_
  rw [get?_invalidate] at he
  split at he
  · cases he
  · exact he

theorem clear (h : c.Fits) : c.clear.Fits := by
  refine h.of_kept rfl (Nat.zero_le _) fun k e he => ?_
  rw [get?_clear] at he
  cases he

theorem cleanup (h : c.Fits) (now : UInt64) : (c.cleanup now).2.Fits := by
  refine h.of_kept rfl (List.length_filter_le _ _) fun k e he => ?_
  rw [get?_cleanup, Option.filter_eq_some_iff] at he
  exact he.1

end Fits

theorem filed_put (h : c.Holds fun _ => True) (e : Entry) : (c.put e).Holds fun _ => True := by
  intro k f hf
  rw [get?_put] at hf
  split at hf
  · rename_i hk
    rw [← Option.some.inj hf]
    exact ⟨hk.symm, trivial⟩
  · exact h k f hf

/-! ## 3. Putting in and loading -/

theorem Fits.set (h : c.Fits) (now : UInt64) (file : Path) (content configHash : String)
    (result : Json) : (c.set now file content configHash result).Fits :=
  .evict (filed_put h.filed (entryOf now file content configHash result)) h.room _

/-- **Putting a result in** leaves it there and gives up the first of the others. -/
theorem Fits.trimmed_set (h : c.Fits) (now : UInt64) (file : Path) (content configHash : String)
    (result : Json) :
    ∃ gone, Trimmed (c.put (entryOf now file content configHash result)) (some file.normal)
      (c.set now file content configHash result) gone :=
  ⟨_, (filed_put h.filed (entryOf now file content configHash result)).trimmed_evict h.room
    (some file.normal)⟩

/-- The entries that loading takes over: those in the directory that are not too old. -/
def stored (c : Cache) (now : UInt64) (disk : FileTree) : List Entry :=
  if c.options.persistent then
    match Archive.readEntries c.options.directory disk with
    | .ok (some entries) => c.fresh now entries
    | _ => []
  else []

/-- Whether a table is what a cache held, overridden by entries; of entries with one path the
last one counts. -/
def Overlaid (c : Cache) (entries : List Entry) (t : Table String Entry) : Prop :=
  ∀ k, t.get? k = ((entries.filter fun e => e.key = k).getLast?).or (c.entries.get? k)

theorem overlaid_merged (c : Cache) (now : UInt64) (es : List Entry) (r : Option SaveRecord) :
    c.Overlaid (c.fresh now es) (c.merged now es r).entries := by
  intro k
  show ((c.fresh now es).foldl (fun t e => t.insert e.key e) c.entries).get? k = _
  induction c.fresh now es using List.reverseRecOn with
  | nil => rfl
  | append_singleton entries e ih =>
    rw [List.foldl_append, List.foldl_cons, List.foldl_nil, Table.get?_insert, List.filter_append]
    by_cases hk : k = e.key
    · simp [hk]
    · have hkey : ¬ e.key = k := fun h => hk h.symm
      simp only [hk, hkey, if_false, decide_false, Bool.false_eq_true, not_false_eq_true,
        List.filter_cons_of_neg, List.filter_nil, List.append_nil]
      exact ih

theorem filed_merged (h : c.Holds fun _ => True) (now : UInt64) (es : List Entry)
    (r : Option SaveRecord) : (c.merged now es r).Holds fun _ => True := by
  intro k e he
  rcases Table.get?_foldl_insert_cases Entry.key id he with ⟨f, -, hkey, rfl⟩ | he
  · exact ⟨hkey, trivial⟩
  · exact h k e he

/-- **Restoring** gives up the first of all that there are after the merge. -/
theorem Fits.trimmed_restore (h : c.Fits) (now : UInt64) (es : List Entry)
    (r : Option SaveRecord) :
    Trimmed { c with entries := (c.merged now es r).entries } none (c.restore now es r)
      ((c.merged now es r).overflow none) := by
  have htrimmed := (filed_merged h.filed now es r).trimmed_evict h.room none
  exact { htrimmed with }

/-- A cache that fits gives up nothing. -/
theorem Fits.trimmed_self (h : c.Fits) : Trimmed c none c [] where
  distinct := List.nodup_nil
  held e he := by cases he
  enough := by
    have hsize := h.size_le
    rw [List.length_nil]
    omega
  first e he := by cases he
  kept k := by simp
  counted := rfl

/-- What loading does: nothing if there is nothing to be read or it cannot be read, and
otherwise the entries are merged and the cache trimmed. -/
theorem load_cases (c : Cache) (now : UInt64) (disk : FileTree) :
    c.stored now disk = [] ∧ (c.load now disk).2 = c ∨
    ∃ es r, c.stored now disk = c.fresh now es ∧
      (c.load now disk).2 = (c.merged now es r).evict none := by
  unfold load stored
  by_cases hpersistent : c.options.persistent
  · rw [if_pos hpersistent, if_pos hpersistent]
    cases Archive.readEntries c.options.directory disk with
    | error fault => exact .inl ⟨rfl, rfl⟩
    | ok found =>
      cases found with
      | none => exact .inl ⟨rfl, rfl⟩
      | some es => exact .inr ⟨es, _, rfl, rfl⟩
  · rw [if_neg hpersistent, if_neg hpersistent]
    exact .inl ⟨rfl, rfl⟩

theorem options_load (c : Cache) (now : UInt64) (disk : FileTree) :
    (c.load now disk).2.options = c.options := by
  rcases c.load_cases now disk with ⟨-, hload⟩ | ⟨es, r, -, hload⟩
  · rw [hload]
  · rw [hload]
    rfl

/-- **Loading** puts the stored entries over what there was and gives up the first of all. -/
theorem Fits.trimmed_load (h : c.Fits) (now : UInt64) (disk : FileTree) :
    (c.load now disk).2.Fits ∧ ∃ grown gone, c.Overlaid (c.stored now disk) grown ∧
      Trimmed { c with entries := grown } none (c.load now disk).2 gone := by
  rcases c.load_cases now disk with ⟨hstored, hload⟩ | ⟨es, r, hstored, hload⟩
  · rw [hstored, hload]
    exact ⟨h, c.entries, [], fun k => rfl, h.trimmed_self⟩
  · rw [hstored, hload]
    exact ⟨.evict (filed_merged h.filed now es r) h.room none, (c.merged now es r).entries, _,
      overlaid_merged c now es r, h.trimmed_restore now es r⟩

end Cache

/-! ## 4. A cache beside a disk -/

/-- What can happen to a cache and its disk. -/
inductive StoreStep where
  | use (step : CacheStep)
  | save
  | load
  /-- Something else changes the disk. -/
  | disturb (disk : FileTree)

/-- A cache, its clock and the disk. -/
structure StoreState extends CacheState where
  disk : FileTree

namespace StoreState

/-- A cache with nothing in it beside a disk. -/
def fresh (options : CacheOptions) (now : UInt64) (disk : FileTree) : StoreState :=
  ⟨.fresh options now, disk⟩

/-- The state after a step. -/
def after (s : StoreState) : StoreStep → StoreState
  | .use step => { s with toCacheState := s.toCacheState.after step }
  | .save => { s with disk := (s.cache.save s.now s.disk).1 }
  | .load => { s with cache := (s.cache.load s.now s.disk).2 }
  | .disturb disk => { s with disk }

/-- The state after several steps. -/
def run (s : StoreState) (steps : List StoreStep) : StoreState :=
  steps.foldl after s

theorem run_append_singleton (s : StoreState) (steps : List StoreStep) (step : StoreStep) :
    s.run (steps ++ [step]) = (s.run steps).after step := by
  rw [run, List.foldl_append]
  rfl

variable {s : StoreState}

/-- **Every step leaves a cache that fits.** -/
theorem fits_after (h : s.cache.Fits) (step : StoreStep) : (s.after step).cache.Fits := by
  cases step with
  | use step =>
    cases step with
    | set file content configHash result => exact h.set s.now file content configHash result
    | get file content configHash => exact h.get s.now file content configHash
    | has file content configHash => exact h
    | invalidate file => exact h.invalidate file
    | clear => exact h.clear
    | cleanup => exact h.cleanup s.now
    | clock now => exact h
  | save => exact h
  | load => exact (h.trimmed_load s.now s.disk).1
  | disturb disk => exact h

theorem options_after (s : StoreState) (step : StoreStep) :
    (s.after step).cache.options = s.cache.options := by
  cases step with
  | use step => exact s.toCacheState.options_after step
  | load => exact s.cache.options_load s.now s.disk
  | save => rfl
  | disturb disk => rfl

/-- **Every run leaves a cache that fits**, with the options it began with. -/
theorem fits_run (options : CacheOptions) (now : UInt64) (disk : FileTree)
    (steps : List StoreStep) :
    ((fresh options now disk).run steps).cache.Fits ∧
      ((fresh options now disk).run steps).cache.options = (Cache.new options).options := by
  induction steps using List.reverseRecOn with
  | nil => exact ⟨.new options, rfl⟩
  | append_singleton steps step ih =>
    rw [run_append_singleton]
    exact ⟨fits_after ih.1 step, (options_after _ step).trans ih.2⟩

/-- Only putting a result in and loading give entries up. -/
theorem evictions_after {step : StoreStep} (hload : step ≠ .load)
    (hset : ∀ file content configHash result, step ≠ .use (.set file content configHash result)) :
    (s.after step).cache.evictions = s.cache.evictions := by
  cases step with
  | use step =>
    cases step with
    | set file content configHash result => exact absurd rfl (hset file content configHash result)
    | get file content configHash =>
      show (s.cache.get s.now file content configHash).2.evictions = _
      unfold Cache.get
      cases s.cache.lookup s.now file content configHash <;> rfl
    | _ => rfl
  | load => exact absurd rfl hload
  | save => rfl
  | disturb disk => rfl

/-- Whether a cache keeps to a capacity and gives up what is oldest. -/
structure KeepsCapacity (capacity : Nat) (s : StoreState) : Prop where
  size_le : s.cache.size ≤ capacity
  filed : ∀ k e, s.cache.entries.get? k = some e → e.key = k
  /-- A result that is put in is there, whatever the clock says. -/
  set_present : ∀ file content configHash result,
    (s.after (.use (.set file content configHash result))).cache.entries.get? file.normal =
      some (Cache.entryOf s.now file content configHash result)
  /-- What goes for it are the first of the others. -/
  set_trimmed : ∀ file content configHash result, ∃ gone,
    Cache.Trimmed (s.cache.put (Cache.entryOf s.now file content configHash result))
      (some file.normal) (s.after (.use (.set file content configHash result))).cache gone
  /-- What goes when the cache is loaded are the first of all that there are then. -/
  load_trimmed : ∃ grown gone, s.cache.Overlaid (s.cache.stored s.now s.disk) grown ∧
    Cache.Trimmed { s.cache with entries := grown } none (s.after .load).cache gone
  /-- Nothing else is counted. -/
  counted : ∀ step, step ≠ .load →
    (∀ file content configHash result, step ≠ .use (.set file content configHash result)) →
    (s.after step).cache.evictions = s.cache.evictions

/-- **A cache keeps to its capacity and gives up what is oldest**, after any use of a cache that
began with nothing, with saves and loads in between and whatever else happens to the disk.  A
cache without room has room for one entry. -/
theorem keepsCapacity_run (options : CacheOptions) (now : UInt64) (disk : FileTree)
    (steps : List StoreStep) :
    ((fresh options now disk).run steps).KeepsCapacity (max options.capacity 1) := by
  obtain ⟨hfits, hoptions⟩ := fits_run options now disk steps
  have hsize := hfits.size_le
  rw [hoptions] at hsize
  exact {
    size_le := hsize
    filed := fun k e he => (hfits.filed k e he).1
    set_present := fun file content configHash result =>
      (Cache.get?_set _ _ file content configHash result file.normal).trans (if_pos rfl)
    set_trimmed := hfits.trimmed_set _
    load_trimmed := (hfits.trimmed_load _ _).2
    counted := fun step => evictions_after }

end StoreState
end AnalysisRunner
