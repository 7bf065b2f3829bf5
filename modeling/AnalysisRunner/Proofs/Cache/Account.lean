import AnalysisRunner.Proofs.Cache.Capacity

/-!
# The accounts of a cache tell its history

A cache counts its hits and misses, the entries it gave up for want of room, and the entries it
found too old.  Each of the four counts is a sum over the history, in which every step counts for
something in the state that it finds (`CacheState.tally`).

What a step makes the cache lose is read off the tables before and after it, so it does not depend
on the count that goes with it (`CacheState.losses`).  There are five ways to lose an entry: it is
displaced by another one, a question or a cleaning finds it too old, its file is forgotten, or
everything is cleared.  The last two are not counted by the cache.  An entry comes in only when a
result is put in for a file that has none.  Then the entries that came in are those that are there
and those that were lost (`accounts_tell_the_history`).
-/

namespace AnalysisRunner

/-! ## 1. Sizes of tables -/

namespace Table

variable {κ : Type u} {α : Type v} [DecidableEq κ] {t u : Table κ α}

theorem contains_iff_mem_keys {k : κ} : t.contains k = true ↔ k ∈ t.keys := by
  rw [contains, Option.isSome_iff_exists, mem_keys_iff]

theorem size_erase_add (t : Table κ α) (k : κ) :
    (t.erase k).size + (t.contains k).toNat = t.size := by
  rw [size_eq, size_eq, keys_erase]
  cases hk : t.contains k with
  | true =>
    have hmem := contains_iff_mem_keys.mp hk
    have hpos := List.length_pos_of_mem hmem
    rw [List.length_erase_of_mem hmem, Bool.toNat_true]
    omega
  | false =>
    have hmem : k ∉ t.keys := fun hmem => by
      rw [contains_iff_mem_keys.mpr hmem] at hk
      cases hk
    rw [List.erase_of_not_mem hmem, Bool.toNat_false, Nat.add_zero]

theorem size_insert (t : Table κ α) (k : κ) (a : α) :
    (t.insert k a).size = t.size + (!t.contains k).toNat := by
  have herase := t.size_erase_add k
  have hinsert : (t.insert k a).size = (t.erase k).size + 1 := rfl
  cases hk : t.contains k <;> simp only [hk, Bool.toNat_true, Bool.toNat_false, Bool.not_true,
    Bool.not_false] at herase ⊢ <;> omega

/-- The keys of a table that another one has not. -/
def lacking (t u : Table κ α) : List κ :=
  t.keys.filter fun k => !u.contains k

theorem mem_lacking {k : κ} : k ∈ t.lacking u ↔ (∃ a, t.get? k = some a) ∧ u.get? k = none := by
  rw [lacking, List.mem_filter, mem_keys_iff, contains, Bool.not_eq_true',
    Option.isSome_eq_false_iff, Option.isNone_iff_eq_none]

theorem nodup_lacking (t u : Table κ α) : (t.lacking u).Nodup :=
  List.Nodup.sublist List.filter_sublist t.nodup

theorem lacking_self (t : Table κ α) : t.lacking t = [] := by
  rw [List.eq_nil_iff_forall_not_mem]
  intro k hk
  obtain ⟨⟨a, ha⟩, hnone⟩ := mem_lacking.mp hk
  rw [ha] at hnone
  cases hnone

/-- **Two tables differ in size by what each has and the other has not.** -/
theorem size_add_lacking (t u : Table κ α) :
    t.size + (u.lacking t).length = u.size + (t.lacking u).length := by
  have hnodup : ∀ t u : Table κ α, (t.keys.filter u.contains).Nodup := fun t u =>
    List.Nodup.sublist List.filter_sublist t.nodup
  have hcommon : (t.keys.filter u.contains).Perm (u.keys.filter t.contains) := by
    refine (List.perm_ext_iff_of_nodup (hnodup t u) (hnodup u t)).mpr fun k => ?_
    simp only [List.mem_filter, mem_keys_iff, contains, Option.isSome_iff_exists]
    exact And.comm
  have hsplit : ∀ t u : Table κ α, t.size = (t.keys.filter u.contains).length +
      (t.lacking u).length := by
    intro t u
    have hcount := t.keys.length_eq_countP_add_countP u.contains
    rw [← size_eq, List.countP_eq_length_filter, List.countP_eq_length_filter] at hcount
    simpa [lacking] using hcount
  rw [hsplit t u, hsplit u t, hcommon.length_eq]
  omega

end Table

/-- A question counts an entry as too old exactly if it drops one. -/
theorem Cache.expired_get_add_size (c : Cache) (now : UInt64) (file : Path)
    (content configHash : String) :
    (c.get now file content configHash).2.expired + (c.get now file content configHash).2.size =
      c.expired + c.size := by
  have hheld : c.lookup now file content configHash = .expired →
      c.entries.contains file.normal = true := by
    unfold lookup
    rw [Table.contains]
    cases c.entries.get? file.normal with
    | none =>
      intro hnone
      cases hnone
    | some e => exact fun _ => rfl
  unfold get
  cases hlookup : c.lookup now file content configHash with
  | expired =>
    have herase := c.entries.size_erase_add file.normal
    rw [hheld hlookup, Bool.toNat_true] at herase
    show c.expired + 1 + (c.entries.erase file.normal).size = c.expired + c.entries.size
    omega
  | _ => rfl

/-! ## 2. What a step counts for -/

/-- Whether a step is a question. -/
def CacheStep.isQuestion : CacheStep → Bool
  | .get _ _ _ => true
  | _ => false

namespace CacheState

variable {s : CacheState}

/-- The keys whose entries a step makes the cache lose. -/
def losses (s : CacheState) (step : CacheStep) : List String :=
  s.cache.entries.lacking (s.after step).cache.entries

/-- A question that is answered by a result. -/
def served (s : CacheState) : CacheStep → Nat
  | .get file content configHash => (s.cache.get s.now file content configHash).1.isSome.toNat
  | _ => 0

/-- A result that is put in for a file that has none. -/
def entered (s : CacheState) : CacheStep → Nat
  | .set file _ _ _ => (!s.cache.entries.contains file.normal).toNat
  | _ => 0

/-- The entries that are lost to another one. -/
def displaced (s : CacheState) : CacheStep → Nat
  | .set file content configHash result => (s.losses (.set file content configHash result)).length
  | _ => 0

/-- The entries that are lost because they are found too old. -/
def outdated (s : CacheState) : CacheStep → Nat
  | .get file content configHash => (s.losses (.get file content configHash)).length
  | .cleanup => (s.losses .cleanup).length
  | _ => 0

/-- The entries that are dropped on demand. -/
def dropped (s : CacheState) : CacheStep → Nat
  | .invalidate file => (s.losses (.invalidate file)).length
  | .clear => (s.losses .clear).length
  | _ => 0

/-- What the steps of a history count for in all, each in the state that it finds. -/
def tally (count : CacheState → CacheStep → Nat) (s : CacheState) : List CacheStep → Nat
  | [] => 0
  | step :: rest => count s step + tally count (s.after step) rest

/-! ## 3. One step -/

theorem fits_after (h : s.cache.Fits) (step : CacheStep) : (s.after step).cache.Fits :=
  StoreState.fits_after (s := ⟨s, .empty⟩) h (.use step)

/-- What a step loses, it loses in one of three ways. -/
theorem length_losses (s : CacheState) (step : CacheStep) :
    (s.losses step).length = s.displaced step + s.outdated step + s.dropped step := by
  have hsame : (s.losses (.has ⟨[]⟩ "" "")).length = 0 := by
    rw [losses, after, Table.lacking_self, List.length_nil]
  cases step with
  | set file content configHash result => rfl
  | get file content configHash => exact (Nat.zero_add _).symm
  | has file content configHash => exact hsame
  | invalidate file => exact (Nat.zero_add _).symm
  | clear => exact (Nat.zero_add _).symm
  | cleanup => exact (Nat.zero_add _).symm
  | clock now => exact hsame

/-- **Only a result that is put in for a file that has none makes a table gain a key.** -/
theorem length_gains (h : s.cache.Fits) (step : CacheStep) :
    ((s.after step).cache.entries.lacking s.cache.entries).length = s.entered step := by
  have hget : ∀ k, k ∈ (s.after step).cache.entries.lacking s.cache.entries ↔
      s.cache.entries.get? k = none ∧ ∃ file content configHash result,
        step = .set file content configHash result ∧ file.normal = k := by
    intro k
    have hiff := fun e => get?_after (s := s) (k := k) (e := e) step fun e he => (h.filed k e he).1
    rw [Table.mem_lacking, And.comm]
    refine and_congr_right fun hnone => ?_
    constructor
    · rintro ⟨e, he⟩
      rcases (hiff e).mp he with ⟨file, content, configHash, result, hstep, hkey, -⟩ | ⟨he, -⟩
      · exact ⟨file, content, configHash, result, hstep, hkey⟩
      · rw [hnone] at he
        cases he
    · rintro ⟨file, content, configHash, result, hstep, hkey⟩
      exact ⟨_, (hiff _).mpr (.inl ⟨file, content, configHash, result, hstep, hkey, rfl⟩)⟩
  have hnone : (∀ file content configHash result, step ≠ .set file content configHash result) →
      ((s.after step).cache.entries.lacking s.cache.entries).length = 0 := by
    intro hother
    rw [List.length_eq_zero_iff, List.eq_nil_iff_forall_not_mem]
    intro k hk
    obtain ⟨-, file, content, configHash, result, hstep, -⟩ := (hget k).mp hk
    exact hother file content configHash result hstep
  cases step with
  | set file content configHash result =>
    have hkey : ∀ k, k ∈ (s.after (.set file content configHash result)).cache.entries.lacking
        s.cache.entries ↔ s.cache.entries.get? k = none ∧ k = file.normal := by
      intro k
      rw [hget]
      refine and_congr_right fun _ => ⟨?_, fun hk => ⟨_, _, _, _, rfl, hk.symm⟩⟩
      rintro ⟨_, _, _, _, hstep, hk⟩
      cases hstep
      exact hk.symm
    rw [entered, Table.contains]
    cases hheld : s.cache.entries.get? file.normal with
    | some e =>
      rw [Option.isSome_some, Bool.not_true, Bool.toNat_false, List.length_eq_zero_iff,
        List.eq_nil_iff_forall_not_mem]
      intro k hk
      obtain ⟨hfree, rfl⟩ := (hkey k).mp hk
      rw [hheld] at hfree
      cases hfree
    | none =>
      have hperm : ((s.after (.set file content configHash result)).cache.entries.lacking
          s.cache.entries).Perm [file.normal] := by
        refine (List.perm_ext_iff_of_nodup (Table.nodup_lacking ..) (List.nodup_singleton _)).mpr
          fun k => ?_
        rw [hkey, List.mem_singleton]
        exact ⟨fun hk => hk.2, fun hk => ⟨hk ▸ hheld, hk⟩⟩
      exact hperm.length_eq
  | get file content configHash => exact hnone fun _ _ _ _ hstep => by cases hstep
  | has file content configHash => exact hnone fun _ _ _ _ hstep => by cases hstep
  | invalidate file => exact hnone fun _ _ _ _ hstep => by cases hstep
  | clear => exact hnone fun _ _ _ _ hstep => by cases hstep
  | cleanup => exact hnone fun _ _ _ _ hstep => by cases hstep
  | clock now => exact hnone fun _ _ _ _ hstep => by cases hstep

/-- **A step loses as many entries as there were before it or came in, and are not there after
it.** -/
theorem size_after (h : s.cache.Fits) (step : CacheStep) :
    (s.after step).cache.size + (s.losses step).length = s.cache.size + s.entered step := by
  rw [← length_gains h step]
  exact (Table.size_add_lacking _ _).symm

theorem hits_after (s : CacheState) (step : CacheStep) :
    (s.after step).cache.hits = s.cache.hits + s.served step := by
  cases step with
  | get file content configHash =>
    show (s.cache.get s.now file content configHash).2.hits = s.cache.hits +
      (s.cache.get s.now file content configHash).1.isSome.toNat
    unfold Cache.get
    cases s.cache.lookup s.now file content configHash <;> rfl
  | _ => rfl

theorem questions_after (s : CacheState) (step : CacheStep) :
    (s.after step).cache.hits + (s.after step).cache.misses =
      s.cache.hits + s.cache.misses + step.isQuestion.toNat := by
  cases step with
  | get file content configHash =>
    show (s.cache.get s.now file content configHash).2.hits +
      (s.cache.get s.now file content configHash).2.misses = s.cache.hits + s.cache.misses + 1
    unfold Cache.get
    cases s.cache.lookup s.now file content configHash with
    | hit result => exact Nat.add_right_comm ..
    | _ => rfl
  | _ => rfl

/-- A result that is put in displaces what is evicted. -/
theorem evictions_after (h : s.cache.Fits) (step : CacheStep) :
    (s.after step).cache.evictions = s.cache.evictions + s.displaced step := by
  cases step with
  | set file content configHash result =>
    have hfiled := Cache.filed_put h.filed (Cache.entryOf s.now file content configHash result)
    have hgone := hfiled.size_evict_add (some file.normal)
    have hput : (s.cache.put (Cache.entryOf s.now file content configHash result)).size =
        s.cache.size + s.entered (.set file content configHash result) := Table.size_insert ..
    have hsize := size_after h (.set file content configHash result)
    have hset : (s.after (.set file content configHash result)).cache.size +
        ((s.cache.put (Cache.entryOf s.now file content configHash result)).overflow
          (some file.normal)).length =
          (s.cache.put (Cache.entryOf s.now file content configHash result)).size := hgone
    show s.cache.evictions + ((s.cache.put (Cache.entryOf s.now file content configHash
      result)).overflow (some file.normal)).length = s.cache.evictions +
        (s.losses (.set file content configHash result)).length
    omega
  | get file content configHash =>
    show (s.cache.get s.now file content configHash).2.evictions = s.cache.evictions
    unfold Cache.get
    cases s.cache.lookup s.now file content configHash <;> rfl
  | _ => rfl

/-- A question and a cleaning count the entries that they find too old. -/
theorem expired_after (h : s.cache.Fits) (step : CacheStep) :
    (s.after step).cache.expired = s.cache.expired + s.outdated step := by
  have hsize := size_after h step
  cases step with
  | get file content configHash =>
    have hold := s.cache.expired_get_add_size s.now file content configHash
    have hafter : (s.after (.get file content configHash)).cache =
        (s.cache.get s.now file content configHash).2 := rfl
    rw [hafter] at hsize ⊢
    show _ = s.cache.expired + (s.losses (.get file content configHash)).length
    have hentered : s.entered (.get file content configHash) = 0 := rfl
    omega
  | cleanup =>
    have hentered : s.entered .cleanup = 0 := rfl
    show s.cache.expired + (s.cache.size - (s.after .cleanup).cache.size) =
      s.cache.expired + (s.losses .cleanup).length
    omega
  | _ => rfl

/-- **The balance of a step**: what came in is there, or it was given up, found too old or
dropped. -/
theorem balance_after (h : s.cache.Fits) (step : CacheStep) :
    (s.after step).cache.size + (s.after step).cache.evictions + (s.after step).cache.expired +
        s.dropped step =
      s.cache.size + s.cache.evictions + s.cache.expired + s.entered step := by
  have hsize := size_after h step
  have hlosses := s.length_losses step
  rw [evictions_after h, expired_after h]
  omega

/-! ## 4. Whole histories -/

/-- What every step adds to an account, less what it takes from it, a history adds in all. -/
theorem tally_run (account : Cache → Nat) {gain loss : CacheState → CacheStep → Nat}
    (hstep : ∀ s step, s.cache.Fits →
      account (s.after step).cache + loss s step = account s.cache + gain s step)
    (h : s.cache.Fits) (steps : List CacheStep) :
    account (s.run steps).cache + s.tally loss steps = account s.cache + s.tally gain steps := by
  induction steps generalizing s with
  | nil => rfl
  | cons step rest ih =>
    have hfirst := hstep s step h
    have hrest := ih (fits_after h step)
    rw [tally, tally]
    show account ((s.after step).run rest).cache + _ = _
    omega

theorem tally_zero (s : CacheState) (steps : List CacheStep) :
    s.tally (fun _ _ => 0) steps = 0 := by
  induction steps generalizing s with
  | nil => rfl
  | cons step rest ih => rw [tally, ih]

theorem tally_toNat (p : CacheStep → Bool) (s : CacheState) (steps : List CacheStep) :
    s.tally (fun _ step => (p step).toNat) steps = steps.countP p := by
  induction steps generalizing s with
  | nil => rfl
  | cons step rest ih =>
    rw [tally, ih, List.countP_cons, Nat.add_comm]
    cases p step <;> rfl

/-- An account from which nothing is ever taken. -/
theorem account_run (account : Cache → Nat) {gain : CacheState → CacheStep → Nat}
    (hstep : ∀ s step, s.cache.Fits → account (s.after step).cache = account s.cache + gain s step)
    (options : CacheOptions) (start : UInt64) (steps : List CacheStep) :
    account ((fresh options start).run steps).cache =
      account (.new options) + (fresh options start).tally gain steps := by
  have hrun : account ((fresh options start).run steps).cache +
      (fresh options start).tally (fun _ _ => 0) steps = _ :=
    tally_run account hstep (.new options) steps
  rwa [tally_zero, Nat.add_zero] at hrun

/-- **The accounts of a cache tell its history.**  Whatever was done to a cache that began with
nothing, and whatever its clock showed: the hits are the questions that were answered by a result,
hits and misses are the questions, the evictions are the entries that were displaced, and the
expired ones are those that a question or a cleaning found too old.  And as many entries came in
for files that had none as are there, were given up, were found too old and were dropped. -/
theorem accounts_tell_the_history (options : CacheOptions) (start : UInt64)
    (steps : List CacheStep) :
    let s := fresh options start
    let c := (s.run steps).cache
    c.hits = s.tally served steps ∧
      c.hits + c.misses = steps.countP CacheStep.isQuestion ∧
      c.evictions = s.tally displaced steps ∧
      c.expired = s.tally outdated steps ∧
      s.tally entered steps = c.size + c.evictions + c.expired + s.tally dropped steps := by
  intro s c
  refine ⟨?_, ?_, ?_, ?_, ?_⟩
  · exact (account_run Cache.hits (fun s step _ => hits_after s step) options start steps).trans
      (Nat.zero_add _)
  · have hquestions := account_run (fun c => c.hits + c.misses)
      (fun s step _ => questions_after s step) options start steps
    rw [tally_toNat] at hquestions
    exact hquestions.trans (Nat.zero_add _)
  · exact (account_run Cache.evictions (fun s step h => evictions_after h step) options start
      steps).trans (Nat.zero_add _)
  · exact (account_run Cache.expired (fun s step h => expired_after h step) options start
      steps).trans (Nat.zero_add _)
  · have hbalance := tally_run (fun c => c.size + c.evictions + c.expired)
      (fun s step h => balance_after h step) (s := s) (.new options) steps
    exact (Nat.zero_add _).symm.trans hbalance.symm

end CacheState
end AnalysisRunner
