import Mathlib.Data.List.Basic
import Mathlib.Data.List.Induction
import AnalysisRunner.Proofs.Cache.Contents
import AnalysisRunner.Proofs.Clock

/-!
# A cache seen through its history

A cache answers from what it holds; its user only knows what was done to it.  This
file reads the contents off the history of a cache that began with nothing.

A history is a list of steps: results put in, questions, files forgotten, everything
cleared, old results cleaned out, and the clock set to any time at all.  Three things
can happen to the entry that a step put in:

* a later step *decides* about its key: another result for it is put in, it is
  forgotten, or everything is cleared (`CacheStep.decides`);
* a later step needs its room (`CacheState.evicts`);
* a later question about its file, or a cleaning, finds it too old
  (`CacheState.findsOld`).

An entry to which none of these has happened *stands* (`CacheState.Stands`).  One
inversion lemma, `get?_after`, says what a single step does to what is held under a
key, and `get?_run_fresh` carries it along a history: what is held is what stands.

The age of an entry is measured against the lifetime as a clock can tell it, in
sixty-four bits (`Duration.ticks`).  A lifetime of `2 ^ 64` milliseconds or more is
therefore cut, and then an entry is refused that is younger than its lifetime.
`served_iff_stands` states the answers of a cache with the lifetime that counts, and
says for which lifetimes that is the lifetime asked for: exactly those below the cut.
-/

namespace AnalysisRunner

/-- What can be done to a cache, and its clock. -/
inductive CacheStep where
  | set (file : Path) (content configHash : String) (result : Json)
  | get (file : Path) (content configHash : String)
  | has (file : Path) (content configHash : String)
  | invalidate (file : Path)
  | clear
  | cleanup
  /-- The clock shows another time, later or earlier. -/
  | clock (now : UInt64)

/-- Whether a step decides what there is about a key, whatever there was before. -/
def CacheStep.decides (k : String) : CacheStep → Prop
  | .set file _ _ _ => file.normal = k
  | .invalidate file => file.normal = k
  | .clear => True
  | _ => False

/-- A cache and the time its clock shows. -/
structure CacheState where
  now : UInt64
  cache : Cache

namespace CacheState

/-- A cache with nothing in it. -/
def fresh (options : CacheOptions) (now : UInt64) : CacheState :=
  ⟨now, .new options⟩

/-- The state after a step. -/
def after (s : CacheState) : CacheStep → CacheState
  | .set file content configHash result =>
    { s with cache := s.cache.set s.now file content configHash result }
  | .get file content configHash =>
    { s with cache := (s.cache.get s.now file content configHash).2 }
  | .has _ _ _ => s
  | .invalidate file => { s with cache := s.cache.invalidate file }
  | .clear => { s with cache := s.cache.clear }
  | .cleanup => { s with cache := (s.cache.cleanup s.now).2 }
  | .clock now => { s with now }

/-- The state after several steps. -/
def run (s : CacheState) (steps : List CacheStep) : CacheState :=
  steps.foldl after s

/-- Whether a step takes the entry under a key out for want of room. -/
def evicts (s : CacheState) (k : String) : CacheStep → Prop
  | .set file content configHash result =>
    k ∈ s.cache.displaced (Cache.entryOf s.now file content configHash result)
  | _ => False

/-- Whether a step comes upon an entry and finds it too old. -/
def findsOld (s : CacheState) (e : Entry) : CacheStep → Prop
  | .get file _ _ => file.normal = e.key ∧ s.cache.options.lifetime.ticks ≤ e.age s.now
  | .cleanup => s.cache.options.lifetime.ticks ≤ e.age s.now
  | _ => False

/-- An entry stands after a history: the last step that decided about its key put it
in, and since then no step evicted it or found it too old. -/
def Stands (s : CacheState) (steps : List CacheStep) (e : Entry) : Prop :=
  ∃ before file content configHash result later,
    steps = before ++ .set file content configHash result :: later ∧
    e = Cache.entryOf (s.run before).now file content configHash result ∧
    (∀ step ∈ later, ¬ step.decides e.key) ∧
    ∀ mid step rest, later = mid ++ step :: rest →
      ¬ (s.run (before ++ .set file content configHash result :: mid)).evicts e.key step ∧
      ¬ (s.run (before ++ .set file content configHash result :: mid)).findsOld e step

@[simp] theorem run_append_singleton (s : CacheState) (steps : List CacheStep) (step : CacheStep) :
    s.run (steps ++ [step]) = (s.run steps).after step := by
  rw [run, List.foldl_append]
  rfl

@[simp] theorem options_after (s : CacheState) (step : CacheStep) :
    (s.after step).cache.options = s.cache.options := by
  cases step <;> simp [after, Cache.invalidate, Cache.clear, Cache.cleanup]

theorem options_run (s : CacheState) (steps : List CacheStep) :
    (s.run steps).cache.options = s.cache.options := by
  induction steps using List.reverseRecOn with
  | nil => rfl
  | append_singleton steps step ih => rw [run_append_singleton, options_after, ih]

/-! ## 1. One step -/

/-- **What a step leaves under a key**: the entry that it puts in there, or what was
there if the step neither decides about the key nor evicts it nor finds it too old. -/
theorem get?_after {s : CacheState} {k : String} (step : CacheStep) {e : Entry}
    (hfiled : ∀ e, s.cache.entries.get? k = some e → e.key = k) :
    (s.after step).cache.entries.get? k = some e ↔
      (∃ file content configHash result, step = .set file content configHash result ∧
        file.normal = k ∧ e = Cache.entryOf s.now file content configHash result) ∨
      (s.cache.entries.get? k = some e ∧ ¬ step.decides k ∧ ¬ s.evicts k step ∧
        ¬ s.findsOld e step) := by
  cases step with
  | set file content configHash result =>
    simp only [after, Cache.get?_set, CacheStep.decides, evicts, findsOld]
    by_cases hk : k = file.normal
    · simp [hk, eq_comm]
    · by_cases hgone : k ∈ s.cache.displaced (Cache.entryOf s.now file content configHash result)
      · simp [hk, hgone, Ne.symm hk]
      · simp [hk, hgone, Ne.symm hk]
  | get file content configHash =>
    simp only [after, Cache.get?_get, CacheStep.decides, evicts, findsOld,
      Option.filter_eq_some_iff]
    constructor
    · rintro ⟨hget, hkeep⟩
      refine Or.inr ⟨hget, id, id, ?_⟩
      rintro ⟨hfile, hold⟩
      rw [hfiled e hget] at hfile
      simp [hfile, Entry.isExpired, hold] at hkeep
    · rintro (⟨_, _, _, _, h, -⟩ | ⟨hget, -, -, hkeep⟩)
      · cases h
      · refine ⟨hget, ?_⟩
        rw [hfiled e hget] at hkeep
        by_cases hk : k = file.normal
        · have hyoung : ¬ s.cache.options.lifetime.ticks ≤ e.age s.now :=
            fun hold => hkeep ⟨hk.symm, hold⟩
          simp [Entry.isExpired, hyoung]
        · simp [hk]
  | has file content configHash => simp [after, CacheStep.decides, evicts, findsOld]
  | invalidate file =>
    simp only [after, Cache.get?_invalidate, CacheStep.decides, evicts, findsOld]
    by_cases hk : k = file.normal
    · simp [hk]
    · simp [hk, Ne.symm hk]
  | clear => simp [after, Cache.get?_clear, CacheStep.decides]
  | cleanup =>
    simp only [after, Cache.get?_cleanup, CacheStep.decides, evicts, findsOld,
      Option.filter_eq_some_iff]
    simp [Entry.isExpired]
  | clock now => simp [after, CacheStep.decides, evicts, findsOld]

/-- What stands after one more step: what the step puts in, or what stood before if
the step does nothing to it. -/
theorem stands_append_singleton {s : CacheState} {steps : List CacheStep} {step : CacheStep}
    {e : Entry} :
    s.Stands (steps ++ [step]) e ↔
      (∃ file content configHash result, step = .set file content configHash result ∧
        e = Cache.entryOf (s.run steps).now file content configHash result) ∨
      (s.Stands steps e ∧ ¬ step.decides e.key ∧ ¬ (s.run steps).evicts e.key step ∧
        ¬ (s.run steps).findsOld e step) := by
  constructor
  · rintro ⟨before, file, content, configHash, result, later, hsteps, he, hdecides, hkept⟩
    -- the step that put the entry in is the last one, or the last one came later
    rcases List.eq_nil_or_concat' later with rfl | ⟨later', last, rfl⟩
    · obtain ⟨rfl, hlast⟩ := List.append_inj' hsteps rfl
      exact Or.inl ⟨file, content, configHash, result, List.head_eq_of_cons_eq hlast, he⟩
    · rw [← List.cons_append, ← List.append_assoc] at hsteps
      obtain ⟨rfl, hlast⟩ := List.append_inj' hsteps rfl
      have hlast : step = last := List.head_eq_of_cons_eq hlast
      subst hlast
      refine Or.inr ⟨⟨before, file, content, configHash, result, later', rfl, he, ?_, ?_⟩, ?_, ?_⟩
      · exact fun x hx => hdecides x (List.mem_append_left _ hx)
      · intro mid x rest hsplit
        exact hkept mid x (rest ++ [step]) (by rw [hsplit]; simp)
      · exact hdecides step (List.mem_append_right _ (List.mem_singleton_self step))
      · exact hkept later' step [] rfl
  · rintro (⟨file, content, configHash, result, rfl, he⟩ |
      ⟨⟨before, file, content, configHash, result, later, rfl, he, hdecides, hkept⟩, hnow, hlast⟩)
    · refine ⟨steps, file, content, configHash, result, [], rfl, he, by simp, ?_⟩
      intro mid x rest hsplit
      exact absurd hsplit (by simp)
    · refine ⟨before, file, content, configHash, result, later ++ [step], by simp, he, ?_, ?_⟩
      · intro x hx
        rcases List.mem_append.mp hx with hx | hx
        · exact hdecides x hx
        · rw [List.mem_singleton.mp hx]
          exact hnow
      · intro mid x rest hsplit
        rcases List.eq_nil_or_concat' rest with rfl | ⟨rest', y, rfl⟩
        · obtain ⟨rfl, hx⟩ := List.append_inj' hsplit rfl
          rw [← List.head_eq_of_cons_eq hx]
          exact hlast
        · rw [← List.cons_append, ← List.append_assoc] at hsplit
          obtain ⟨rfl, -⟩ := List.append_inj' hsplit rfl
          exact hkept mid x rest' rfl

/-! ## 2. Whole histories -/

/-- **What a cache holds is what stands.** -/
theorem get?_run_fresh (options : CacheOptions) (start : UInt64) (steps : List CacheStep)
    (k : String) (e : Entry) :
    ((fresh options start).run steps).cache.entries.get? k = some e ↔
      e.key = k ∧ (fresh options start).Stands steps e := by
  induction steps using List.reverseRecOn generalizing e with
  | nil =>
    constructor
    · intro h
      cases h
    · rintro ⟨-, before, _, _, _, _, later, h, -⟩
      exact absurd h (by simp)
  | append_singleton steps step ih =>
    rw [run_append_singleton, get?_after step (fun e he => ((ih e).mp he).1),
      stands_append_singleton, ih]
    constructor
    · rintro (⟨file, content, configHash, result, rfl, rfl, rfl⟩ | ⟨⟨rfl, hstands⟩, hkeep⟩)
      · exact ⟨rfl, Or.inl ⟨file, content, configHash, result, rfl, rfl⟩⟩
      · exact ⟨rfl, Or.inr ⟨hstands, hkeep⟩⟩
    · rintro ⟨rfl, ⟨file, content, configHash, result, rfl, rfl⟩ | ⟨hstands, hkeep⟩⟩
      · exact Or.inl ⟨file, content, configHash, result, rfl, rfl, rfl⟩
      · exact Or.inr ⟨⟨rfl, hstands⟩, hkeep⟩

/-! ## 3. Answers -/

/-- A history calls for a result: an entry for the file stands that was made from the
same content, by fingerprint, and under the same configuration, and its age is below
a limit in milliseconds. -/
def CallsFor (s : CacheState) (limit : Nat) (steps : List CacheStep) (file : Path)
    (content configHash : String) (result : Json) : Prop :=
  ∃ e, s.Stands steps e ∧ e.key = file.normal ∧ e.contentHash = Fingerprint.ofText content ∧
    e.configHash = configHash ∧ e.result = result ∧
    (s.run steps).now.toNat - e.created.toNat < limit

/-- A cache serves what its history calls for, under the lifetime that a clock can
tell. -/
theorem get_run_fresh_eq_some_iff (options : CacheOptions) (start : UInt64)
    (steps : List CacheStep) (file : Path) (content configHash : String) (result : Json) :
    (((fresh options start).run steps).cache.get ((fresh options start).run steps).now file
        content configHash).1 = some result ↔
      (fresh options start).CallsFor options.lifetime.ticks steps file content configHash
        result := by
  have hlife : ((fresh options start).run steps).cache.options.lifetime = options.lifetime := by
    rw [options_run]
    rfl
  rw [Cache.get_eq_some_iff, hlife]
  constructor
  · rintro ⟨e, hget, hcontent, hconfig, hresult, hage⟩
    obtain ⟨hkey, hstands⟩ := (get?_run_fresh options start steps _ e).mp hget
    exact ⟨e, hstands, hkey, hcontent, hconfig, hresult, hage⟩
  · rintro ⟨e, hstands, hkey, hcontent, hconfig, hresult, hage⟩
    exact ⟨e, (get?_run_fresh options start steps _ e).mpr ⟨hkey, hstands⟩, hcontent, hconfig,
      hresult, hage⟩

/-- A result put in at time zero and asked for when the clock has told its lifetime:
it stands, and it is not served. -/
theorem stands_and_not_served (options : CacheOptions) (file : Path) :
    let steps : List CacheStep :=
      [.set file "" "" .null, .clock (UInt64.ofNat options.lifetime.ticks)]
    let s := (fresh options 0).run steps
    (fresh options 0).Stands steps (Cache.entryOf 0 file "" "" .null) ∧
      s.now.toNat = options.lifetime.ticks ∧ (s.cache.get s.now file "" "").1 = none := by
  intro steps s
  have hnow : s.now.toNat = options.lifetime.ticks :=
    Nat.mod_eq_of_lt (Nat.mod_lt _ (by decide))
  have hget : s.cache.entries.get? file.normal = some (Cache.entryOf 0 file "" "" .null) := by
    show ((Cache.new options).set 0 file "" "" .null).entries.get? file.normal = _
    rw [Cache.get?_set, if_pos rfl]
  refine ⟨((get?_run_fresh options 0 steps _ _).mp hget).2, hnow, ?_⟩
  rw [Option.eq_none_iff_forall_ne_some]
  intro result hserved
  obtain ⟨e, he, -, -, -, hage⟩ := Cache.get_eq_some_iff.mp hserved
  have hlife : s.cache.options.lifetime = options.lifetime := by
    rw [options_run]
    rfl
  rw [hget] at he
  rw [← Option.some.inj he, hlife] at hage
  exact absurd hage (by rw [Entry.age, hnow]; exact Nat.lt_irrefl _)

/-- **Lookups are sound and complete over whole histories.**  After any history a
question is answered by a result exactly when the history calls for it under the
lifetime that a clock can tell; asking whether there is an answer gives the same
verdict and changes nothing.  The lifetime that a clock can tell is the lifetime asked
for exactly when that is below `2 ^ 64` milliseconds: for any longer one some history
calls for a result that is not served. -/
theorem served_iff_stands (options : CacheOptions) :
    (∀ (start : UInt64) (steps : List CacheStep) (file : Path) (content configHash : String),
      let s := (fresh options start).run steps
      (∀ result, (s.cache.get s.now file content configHash).1 = some result ↔
        (fresh options start).CallsFor options.lifetime.ticks steps file content configHash
          result) ∧
      s.cache.has s.now file content configHash =
        (s.cache.get s.now file content configHash).1.isSome ∧
      s.after (.has file content configHash) = s) ∧
    ((∀ (start : UInt64) (steps : List CacheStep) (file : Path) (content configHash : String)
        (result : Json),
      let s := (fresh options start).run steps
      (s.cache.get s.now file content configHash).1 = some result ↔
        (fresh options start).CallsFor options.lifetime.millis steps file content configHash
          result) ↔
      options.lifetime.millis < 2 ^ 64) := by
  refine ⟨fun start steps file content configHash => ⟨fun result => ?_, ?_, rfl⟩, ?_, ?_⟩
  · exact get_run_fresh_eq_some_iff options start steps file content configHash result
  · exact Cache.has_eq_isSome_get _ _ file content configHash
  · intro h
    by_contra hlong
    obtain ⟨hstands, hnow, hnone⟩ := stands_and_not_served options ⟨[]⟩
    have hserved := (h 0 _ ⟨[]⟩ "" "" .null).mpr
      ⟨_, hstands, rfl, rfl, rfl, rfl, by
        have hticks := options.lifetime.ticks_lt
        rw [hnow]
        omega⟩
    rw [hnone] at hserved
    cases hserved
  · intro hshort start steps file content configHash result
    rw [← Duration.ticks_eq_millis_iff.mpr hshort]
    exact get_run_fresh_eq_some_iff options start steps file content configHash result

end CacheState
end AnalysisRunner
