import Mathlib.Data.List.Induction
import AnalysisRunner.Proofs.Clock
import AnalysisRunner.Proofs.Watch.Debounce

/-!
# A burst is told once, by its net effect

A debouncer is used in any order: notifications are recorded, paths are cancelled, and what is
due is drained, at times that need not go forward (`DebounceStep`).  Seen from one path, most of
this does not matter.  `Waiting.alone` is what the path itself goes through: its own
notifications are merged, each one puts the deadline off, and a drain that comes late enough
takes it out.  A debouncer is as many of these as there are paths (`Debouncer.Shows.run`), so all
that is to be known of a drain is known from the path alone, and steps about other paths may be
left out (`Waiting.reports_filter`).

A path has been quiet for long enough when the clock has come to its deadline, and a deadline is
the sum of two clock readings.  As long as a clock can show these sums, this is as good as the sum
of the numbers (`Waiting.alone_congr`).

What is told of a burst is what it amounts to.  If notifications come as files come and go, the
merged kind compares the beginning with the end (`foldl_next?_eq_net`): the pairs that cancel
each other are those after which the file is away again, as it was.
-/

namespace AnalysisRunner

/-! ## 1. Steps -/

/-- What can be done with a debouncer. -/
inductive DebounceStep where
  | record (path : Path) (kind : ChangeKind) (now : UInt64)
  | cancel (path : Path)
  | drain (now : UInt64)

namespace DebounceStep

/-- Whether a step matters to a path: it names the path, or it is a drain. -/
def concerns (p : Path) : DebounceStep → Bool
  | .record q _ _ => q.same p
  | .cancel q => q.same p
  | .drain _ => true

/-- When a step records a notification about a path, if it does. -/
def recorded? (p : Path) : DebounceStep → Option UInt64
  | .record q _ now => if q.same p then some now else none
  | _ => none

/-- The time of the last notification about a path. -/
def lastRecord? (p : Path) (steps : List DebounceStep) : Option UInt64 :=
  (steps.filterMap (recorded? p)).getLast?

theorem lastRecord?_append_singleton (p : Path) (steps : List DebounceStep) (s : DebounceStep) :
    lastRecord? p (steps ++ [s]) = (s.recorded? p).or (lastRecord? p steps) := by
  rw [lastRecord?, List.filterMap_append]
  cases hs : s.recorded? p <;> simp [hs, lastRecord?]

theorem mem_of_lastRecord? {p : Path} {steps : List DebounceStep} {t : UInt64}
    (h : lastRecord? p steps = some t) : ∃ q kind, .record q kind t ∈ steps := by
  obtain ⟨s, hs, hrecorded⟩ := List.mem_filterMap.mp (List.mem_of_getLast? h)
  cases s with
  | record q kind now =>
    rw [recorded?] at hrecorded
    split at hrecorded
    · exact ⟨q, kind, Option.some.inj hrecorded ▸ hs⟩
    · cases hrecorded
  | cancel q => cases hrecorded
  | drain now => cases hrecorded

end DebounceStep

namespace Debouncer

/-- The debouncer after a step. -/
def after (d : Debouncer) : DebounceStep → Debouncer
  | .record path kind now => d.record path kind now
  | .cancel path => d.cancel path
  | .drain now => (d.drain now).2

/-- The debouncer after several steps. -/
def run (d : Debouncer) (steps : List DebounceStep) : Debouncer :=
  steps.foldl after d

/-- What a step gives: a list if it is a drain. -/
def told (d : Debouncer) : DebounceStep → List (List (Path × ChangeKind))
  | .drain now => [(d.drain now).1]
  | _ => []

/-- What the drains of a run give, in order. -/
def reports (d : Debouncer) : List DebounceStep → List (List (Path × ChangeKind))
  | [] => []
  | s :: steps => d.told s ++ (d.after s).reports steps

variable {d : Debouncer} {p : Path} {now : UInt64}

/-- Whether a path at which a notification came last has been quiet for long enough. -/
def quiet (d : Debouncer) (last now : UInt64) : Bool :=
  last + d.delay ≤ now

theorem delay_after (d : Debouncer) (s : DebounceStep) : (d.after s).delay = d.delay := by
  cases s with
  | record path kind now => rw [after, record_eq]
  | cancel path => rfl
  | drain now => rfl

theorem quiet_after (d : Debouncer) (s : DebounceStep) : (d.after s).quiet = d.quiet := by
  funext last now
  rw [quiet, quiet, delay_after]

theorem keyed_after (h : d.pending.Keyed) (s : DebounceStep) : (d.after s).pending.Keyed := by
  cases s with
  | record path kind now =>
    rw [after, record_eq]
    cases next? (d.kindOf? path) kind with
    | none => exact h.remove path
    | some merged => exact h.put path _
  | cancel path => exact h.remove path
  | drain now => exact h.filter _

theorem keyed_run (h : d.pending.Keyed) (steps : List DebounceStep) :
    (d.run steps).pending.Keyed := by
  induction steps generalizing d with
  | nil => exact h
  | cons s steps ih => exact ih (keyed_after h s)

theorem get?_record (d : Debouncer) (p : Path) (kind : ChangeKind) (now : UInt64) (k : PathKey) :
    (d.record p kind now).pending.get? k =
      if k = p.components then (next? (d.kindOf? p) kind).map fun merged =>
        (((d.pending.get? k).map Prod.fst).getD p, ⟨merged, now + d.delay⟩)
      else d.pending.get? k := by
  rw [record_eq]
  cases next? (d.kindOf? p) kind with
  | none => exact PathTable.get?_remove d.pending p k
  | some merged => exact PathTable.get?_put d.pending p _ k

/-! ## 2. Drains -/

/-- Whether a path is among those that are told. -/
def Tells (out : List (Path × ChangeKind)) (p : Path) : Prop :=
  ∃ x ∈ out, x.1.components = p.components

theorem get?_drain (d : Debouncer) (now : UInt64) (k : PathKey) :
    (d.drain now).2.pending.get? k = (d.pending.get? k).filter fun x => now < x.2.deadline := by
  rw [drain, Table.get?_filter]
  congr 1
  funext x
  simp only [← UInt64.not_le, decide_not]

/-- What a drain tells of a path is what waits there, if it is due. -/
theorem find?_drain (h : d.pending.Keyed) (now : UInt64) (p : Path) :
    (d.drain now).1.find? (fun x => x.1.same p) =
      ((d.pending.get? p.components).filter fun x => x.2.deadline ≤ now).map
        fun x => (x.1, x.2.kind) := by
  rw [← Table.get?_filter d.pending (fun _ x => x.2.deadline ≤ now), ← (h.filter _).find?_sorted,
    drain, List.find?_map]
  rfl

theorem pairwise_drain (h : d.pending.Keyed) (now : UInt64) :
    ((d.drain now).1.map Prod.fst).Pairwise fun p q =>
      PathKey.compare p.components q.components = .lt := by
  rw [drain, List.map_map, List.pairwise_map]
  exact (h.filter _).pairwise_sorted

theorem mem_drain (d : Debouncer) (now : UInt64) (x : Path × ChangeKind) :
    x ∈ (d.drain now).1 ↔
      ∃ k e, d.pending.get? k = some (x.1, e) ∧ e.kind = x.2 ∧ e.deadline ≤ now := by
  rw [drain, List.mem_map]
  constructor
  · rintro ⟨y, hy, rfl⟩
    obtain ⟨k, hk⟩ := PathTable.mem_sorted.mp hy
    rw [Table.get?_filter, Option.filter_eq_some_iff] at hk
    exact ⟨k, y.2, hk.1, rfl, of_decide_eq_true hk.2⟩
  · rintro ⟨k, e, hk, hkind, hdue⟩
    refine ⟨(x.1, e), PathTable.mem_sorted.mpr ⟨k, ?_⟩, Prod.ext rfl hkind⟩
    rw [Table.get?_filter, hk]
    exact Option.filter_eq_some_iff.mpr ⟨rfl, decide_eq_true hdue⟩

/-- A path is told with the kind that waits there, if it is due. -/
theorem exists_mem_drain_iff (h : d.pending.Keyed) (now : UInt64) (p : Path) (kind : ChangeKind) :
    (∃ x ∈ (d.drain now).1, x.1.components = p.components ∧ x.2 = kind) ↔
      ∃ e, d.pending.find? p = some e ∧ e.kind = kind ∧ e.deadline ≤ now := by
  constructor
  · rintro ⟨x, hx, hsame, rfl⟩
    obtain ⟨k, e, hk, hkind, hdue⟩ := (mem_drain d now x).mp hx
    refine ⟨e, ?_, hkind, hdue⟩
    rw [PathTable.find?, ← hsame, h k _ hk, hk]
    rfl
  · rintro ⟨e, he, rfl, hdue⟩
    obtain ⟨x, hx, rfl⟩ := Option.map_eq_some_iff.mp he
    exact ⟨(x.1, x.2.kind), (mem_drain d now _).mpr ⟨_, x.2, hx, rfl, hdue⟩, h _ x hx, rfl⟩

theorem tells_drain_iff (h : d.pending.Keyed) (now : UInt64) (p : Path) :
    Tells (d.drain now).1 p ↔ ∃ e, d.pending.find? p = some e ∧ e.deadline ≤ now := by
  constructor
  · rintro ⟨x, hx, hsame⟩
    obtain ⟨e, he, -, hdue⟩ := (exists_mem_drain_iff h now p x.2).mp ⟨x, hx, hsame, rfl⟩
    exact ⟨e, he, hdue⟩
  · rintro ⟨e, he, hdue⟩
    obtain ⟨x, hx, hsame, -⟩ := (exists_mem_drain_iff h now p e.kind).mpr ⟨e, he, rfl, hdue⟩
    exact ⟨x, hx, hsame⟩

theorem drain_eq_nil_iff (d : Debouncer) (now : UInt64) :
    (d.drain now).1 = [] ↔ ∀ e ∈ d.pending.values, now < e.2.deadline := by
  rw [List.eq_nil_iff_forall_not_mem]
  constructor
  · intro hnone e he
    obtain ⟨k, hk⟩ := Table.mem_values_iff.mp he
    refine UInt64.not_le.mp fun hdue => ?_
    exact hnone (e.1, e.2.kind) ((mem_drain d now _).mpr ⟨k, e.2, hk, rfl, hdue⟩)
  · intro hlater x hx
    obtain ⟨k, e, hk, -, hdue⟩ := (mem_drain d now x).mp hx
    exact absurd hdue (UInt64.not_le.mpr (hlater _ (Table.mem_values_iff.mpr ⟨k, hk⟩)))

/-- **The next deadline is the first time at which a drain tells something.** -/
theorem nextDeadline_eq_some_iff (d : Debouncer) (t : UInt64) :
    d.nextDeadline = some t ↔ (d.drain t).1 ≠ [] ∧ ∀ now < t, (d.drain now).1 = [] := by
  rw [nextDeadline, List.min?_eq_some_iff, Ne, drain_eq_nil_iff]
  constructor
  · rintro ⟨hmem, hleast⟩
    obtain ⟨e, he, rfl⟩ := List.mem_map.mp hmem
    refine ⟨fun hlater => UInt64.lt_irrefl _ (hlater e he), fun now hnow => ?_⟩
    exact (drain_eq_nil_iff d now).mpr fun f hf =>
      UInt64.lt_of_lt_of_le hnow (hleast _ (List.mem_map_of_mem hf))
  · rintro ⟨hsome, hnone⟩
    -- nothing is due before `t`, so what is due at `t` has the deadline `t`
    have hleast : ∀ f ∈ d.pending.values, t ≤ f.2.deadline := by
      intro f hf
      refine UInt64.not_lt.mp fun hlt => ?_
      exact UInt64.lt_irrefl _ ((drain_eq_nil_iff d _).mp (hnone _ hlt) f hf)
    obtain ⟨e, he, hdue⟩ : ∃ e ∈ d.pending.values, e.2.deadline ≤ t :=
      Classical.byContradiction fun hall =>
        hsome fun e he => UInt64.not_le.mp fun hle => hall ⟨e, he, hle⟩
    refine ⟨List.mem_map.mpr ⟨e, he, UInt64.le_antisymm hdue (hleast e he)⟩, ?_⟩
    intro b hb
    obtain ⟨f, hf, rfl⟩ := List.mem_map.mp hb
    exact hleast f hf

theorem nextDeadline_eq_none_iff (h : d.pending.Keyed) :
    d.nextDeadline = none ↔ ∀ p, d.isPending p = false := by
  rw [nextDeadline, List.min?_eq_none_iff, List.map_eq_nil_iff, List.eq_nil_iff_forall_not_mem]
  constructor
  · intro hnone p
    cases hget : d.pending.get? p.components with
    | none => rw [isPending, PathTable.has_eq, hget]; rfl
    | some x => exact absurd (Table.mem_values_iff.mpr ⟨_, hget⟩) (hnone x)
  · intro hidle x hx
    obtain ⟨k, hk⟩ := Table.mem_values_iff.mp hx
    have hpending := hidle x.1
    rw [isPending, PathTable.has_eq, h k x hk, hk] at hpending
    cases hpending

end Debouncer

/-! ## 3. A path alone -/

/-- What waits at a path: how the path was spelled first, the kind of change, and the time of the
last notification. -/
structure Waiting where
  path : Path
  kind : ChangeKind
  last : UInt64

namespace Waiting

open DebounceStep

variable {quiet quiet' : UInt64 → UInt64 → Bool} {p : Path}

/-- What waits at a path after a step, if it is known when a path has been quiet for long
enough. -/
def after (quiet : UInt64 → UInt64 → Bool) (p : Path) (w : Option Waiting) :
    DebounceStep → Option Waiting
  | .record q kind now =>
    if q.same p then (Debouncer.next? (w.map Waiting.kind) kind).map fun merged =>
      ⟨(w.map path).getD q, merged, now⟩
    else w
  | .cancel q => if q.same p then none else w
  | .drain now => w.filter fun w => !quiet w.last now

/-- What waits at a path that began with nothing. -/
def alone (quiet : UInt64 → UInt64 → Bool) (p : Path) (steps : List DebounceStep) :
    Option Waiting :=
  steps.foldl (after quiet p) none

/-- What a step tells of a path. -/
def told (quiet : UInt64 → UInt64 → Bool) (w : Option Waiting) :
    DebounceStep → List (Option (Path × ChangeKind))
  | .drain now => [(w.filter fun w => quiet w.last now).map fun w => (w.path, w.kind)]
  | _ => []

/-- What the drains of a run tell of a path, in order. -/
def reports (quiet : UInt64 → UInt64 → Bool) (p : Path) :
    Option Waiting → List DebounceStep → List (Option (Path × ChangeKind))
  | _, [] => []
  | w, s :: steps => told quiet w s ++ reports quiet p (after quiet p w s) steps

theorem after_of_not_concerns {w : Option Waiting} {s : DebounceStep}
    (h : s.concerns p = false) : after quiet p w s = w ∧ told quiet w s = [] := by
  cases s with
  | record q kind now => exact ⟨by rw [after, show q.same p = false from h]; rfl, rfl⟩
  | cancel q => exact ⟨by rw [after, show q.same p = false from h]; rfl, rfl⟩
  | drain now => cases h

/-- **Steps about other paths may be left out.** -/
theorem reports_filter (w : Option Waiting) (steps : List DebounceStep) :
    reports quiet p w (steps.filter (concerns p)) = reports quiet p w steps := by
  induction steps generalizing w with
  | nil => rfl
  | cons s steps ih =>
    cases hs : s.concerns p with
    | true => rw [List.filter_cons_of_pos hs, reports, reports, ih]
    | false =>
      obtain ⟨hafter, htold⟩ := @after_of_not_concerns quiet p w s hs
      rw [List.filter_cons_of_neg (by rw [hs]; exact Bool.false_ne_true),
        reports, ih, hafter, htold, List.nil_append]

/-- What waits has waited since the last notification. -/
theorem lastRecord?_of_alone {steps : List DebounceStep} {w : Waiting}
    (h : alone quiet p steps = some w) : lastRecord? p steps = some w.last := by
  induction steps using List.reverseRecOn generalizing w with
  | nil => cases h
  | append_singleton steps s ih =>
    rw [alone, List.foldl_append, List.foldl_cons, List.foldl_nil, ← alone] at h
    rw [lastRecord?_append_singleton]
    cases s with
    | record q kind now =>
      rw [after] at h
      rw [recorded?]
      by_cases hq : q.same p = true
      · rw [if_pos hq] at h ⊢
        obtain ⟨merged, -, rfl⟩ := Option.map_eq_some_iff.mp h
        rfl
      · rw [if_neg hq] at h ⊢
        exact ih h
    | cancel q =>
      rw [after] at h
      split at h
      · cases h
      · exact ih h
    | drain now =>
      rw [after, Option.filter_eq_some_iff] at h
      exact ih h.1

theorem alone_concat (quiet : UInt64 → UInt64 → Bool) (p : Path) (steps : List DebounceStep)
    (s : DebounceStep) : alone quiet p (steps ++ [s]) = after quiet p (alone quiet p steps) s := by
  rw [alone, List.foldl_append]
  rfl

/-- What is quiet matters only of the times at which there was a notification. -/
theorem alone_congr {steps : List DebounceStep}
    (h : ∀ q kind t, .record q kind t ∈ steps → ∀ now, quiet t now = quiet' t now) :
    alone quiet p steps = alone quiet' p steps := by
  induction steps using List.reverseRecOn with
  | nil => rfl
  | append_singleton steps s ih =>
    have hsame := ih fun q kind t ht => h q kind t (List.mem_append_left _ ht)
    rw [alone_concat, alone_concat, ← hsame]
    cases s with
    | record q kind now => rfl
    | cancel q => rfl
    | drain now =>
      cases hw : alone quiet p steps with
      | none => rfl
      | some w =>
        obtain ⟨q, kind, hmem⟩ := mem_of_lastRecord? (lastRecord?_of_alone hw)
        rw [after, after, Option.filter_some, Option.filter_some,
          h q kind w.last (List.mem_append_left _ hmem) now]

/-- Nothing comes to wait without a notification. -/
theorem foldl_after_none {steps : List DebounceStep} (h : lastRecord? p steps = none) :
    steps.foldl (after quiet p) none = none := by
  rw [lastRecord?, List.getLast?_eq_none_iff, List.filterMap_eq_nil_iff] at h
  induction steps with
  | nil => rfl
  | cons s steps ih =>
    have hs : after quiet p none s = none := by
      have hnot := h s (List.mem_cons_self ..)
      cases s with
      | record q kind now =>
        rw [recorded?] at hnot
        rw [after]
        split at hnot
        · cases hnot
        · rename_i hq
          rw [if_neg hq]
      | cancel q =>
        rw [after]
        split <;> rfl
      | drain now => rfl
    rw [List.foldl_cons, hs]
    exact ih fun t ht => h t (List.mem_cons_of_mem _ ht)

end Waiting

namespace Debouncer

open DebounceStep

variable {d : Debouncer} {p : Path} {w : Option Waiting}

/-- Whether a debouncer holds for a path what waits there, and when it is due. -/
def Shows (d : Debouncer) (p : Path) (w : Option Waiting) : Prop :=
  d.pending.get? p.components = w.map fun w => (w.path, ⟨w.kind, w.last + d.delay⟩)

namespace Shows

theorem find?_eq (h : d.Shows p w) :
    d.pending.find? p = w.map fun w => ⟨w.kind, w.last + d.delay⟩ := by
  rw [PathTable.find?, h, Option.map_map]
  rfl

theorem kindOf?_eq (h : d.Shows p w) : d.kindOf? p = w.map Waiting.kind := by
  rw [kindOf?, h.find?_eq, Option.map_map]
  rfl

/-- **A step does to a path in the debouncer what it does to the path alone.** -/
theorem after (h : d.Shows p w) (s : DebounceStep) :
    (d.after s).Shows p (Waiting.after d.quiet p w s) := by
  rw [Shows, delay_after]
  cases s with
  | record q kind now =>
    rw [Debouncer.after, get?_record, Waiting.after]
    by_cases hq : q.components = p.components
    · have hwaiting : d.kindOf? q = w.map Waiting.kind := by
        rw [← h.kindOf?_eq, kindOf?, kindOf?, PathTable.find?_congr _ hq]
      rw [if_pos hq.symm, if_pos (Path.same_iff.mpr hq), hwaiting, h,
        Option.map_map, Option.map_map]
      rfl
    · rw [if_neg (Ne.symm hq), if_neg (mt Path.same_iff.mp hq), h]
  | cancel q =>
    rw [Debouncer.after, cancel, PathTable.get?_remove, Waiting.after]
    by_cases hq : q.components = p.components
    · rw [if_pos hq.symm, if_pos (Path.same_iff.mpr hq)]
      rfl
    · rw [if_neg (Ne.symm hq), if_neg (mt Path.same_iff.mp hq), h]
  | drain now =>
    rw [Debouncer.after, get?_drain, h, Waiting.after]
    cases w with
    | none => rfl
    | some w =>
      simp only [Option.map_some, Option.filter_some, quiet, ← UInt64.not_le, decide_not]
      split <;> rfl

theorem told_eq (h : d.Shows p w) (hkeyed : d.pending.Keyed) (s : DebounceStep) :
    (d.told s).map (List.find? fun x => x.1.same p) = Waiting.told d.quiet w s := by
  cases s with
  | record q kind now => rfl
  | cancel q => rfl
  | drain now =>
    rw [told, List.map_singleton, find?_drain hkeyed, h, Waiting.told]
    cases w with
    | none => rfl
    | some w => by_cases hdue : w.last + d.delay ≤ now <;> simp [Option.filter, quiet, hdue]

/-- **What is told of a path in the debouncer is what is told of the path alone.** -/
theorem reports_eq (h : d.Shows p w) (hkeyed : d.pending.Keyed) (steps : List DebounceStep) :
    (d.reports steps).map (List.find? fun x => x.1.same p) =
      Waiting.reports d.quiet p w steps := by
  induction steps generalizing d w with
  | nil => rfl
  | cons s steps ih =>
    rw [reports, List.map_append, h.told_eq hkeyed, ih (h.after s) (keyed_after hkeyed s),
      quiet_after, Waiting.reports]

theorem run (h : d.Shows p w) (steps : List DebounceStep) :
    (d.run steps).Shows p (steps.foldl (Waiting.after d.quiet p) w) := by
  induction steps generalizing d w with
  | nil => exact h
  | cons s steps ih =>
    have hrest := ih (h.after s)
    rw [quiet_after] at hrest
    exact hrest

end Shows

theorem shows_new (delay : Duration) (p : Path) : (new delay).Shows p none := rfl

theorem quiet_run (d : Debouncer) (steps : List DebounceStep) : (d.run steps).quiet = d.quiet := by
  induction steps generalizing d with
  | nil => rfl
  | cons s steps ih => exact (ih (d.after s)).trans (d.quiet_after s)

/-! ## 4. Waiting for quiet -/

/-- Whether a debouncer that has come through these steps tells a path when it has been quiet for
long enough, and then once. -/
structure TellsWhenQuiet (quiet : UInt64 → UInt64 → Bool) (steps : List DebounceStep)
    (d : Debouncer) : Prop where
  /-- What waits at a path is what its own notifications, cancellations and drains leave there. -/
  pending : ∀ p, d.kindOf? p = (Waiting.alone quiet p steps).map Waiting.kind
  /-- Paths are told in their order, none of them twice. -/
  sorted : ∀ now, ((d.drain now).1.map Prod.fst).Pairwise fun p q =>
    PathKey.compare p.components q.components = .lt
  /-- What is told are the paths that wait and have been quiet for long enough. -/
  due : ∀ now p kind, (∃ x ∈ (d.drain now).1, x.1.components = p.components ∧ x.2 = kind) ↔
    d.kindOf? p = some kind ∧ ∃ t, lastRecord? p steps = some t ∧ quiet t now = true
  /-- What is told no longer waits. -/
  removed : ∀ now p, Tells (d.drain now).1 p → (d.drain now).2.isPending p = false
  /-- What is not told goes on to wait. -/
  kept : ∀ now p, ¬ Tells (d.drain now).1 p →
    (d.drain now).2.pending.find? p = d.pending.find? p
  /-- What was told is not told again before there is another notification. -/
  once : ∀ now p, Tells (d.drain now).1 p → ∀ more, lastRecord? p more = none →
    ∀ now', ¬ Tells (((d.drain now).2.run more).drain now').1 p
  /-- The next deadline is the first time at which something is told. -/
  next : ∀ t, d.nextDeadline = some t ↔ (d.drain t).1 ≠ [] ∧ ∀ now < t, (d.drain now).1 = []
  idle : d.nextDeadline = none ↔ ∀ p, d.isPending p = false

theorem find?_drain_snd (d : Debouncer) (now : UInt64) (p : Path) :
    (d.drain now).2.pending.find? p =
      (d.pending.find? p).filter fun e => now < e.deadline := by
  rw [PathTable.find?, PathTable.find?, get?_drain]
  cases d.pending.get? p.components with
  | none => rfl
  | some x => by_cases hdue : now < x.2.deadline <;> simp [Option.filter, hdue]

/-- A path at which nothing waits is not told before there is a notification. -/
theorem not_tells_run (hkeyed : d.pending.Keyed) (h : d.isPending p = false)
    {more : List DebounceStep} (hmore : lastRecord? p more = none) (now : UInt64) :
    ¬ Tells ((d.run more).drain now).1 p := by
  have hnone : d.Shows p none := by
    rw [isPending, PathTable.has_eq, Option.isSome_eq_false_iff, Option.isNone_iff_eq_none] at h
    exact h
  rw [tells_drain_iff (keyed_run hkeyed more)]
  rintro ⟨e, he, -⟩
  rw [PathTable.find?, hnone.run more, Waiting.foldl_after_none hmore] at he
  cases he

/-- **After any run a debouncer tells when it is quiet**, by its own deadlines. -/
theorem tellsWhenQuiet_run (delay : Duration) (steps : List DebounceStep) :
    TellsWhenQuiet (new delay).quiet steps ((new delay).run steps) := by
  have hkeyed : ((new delay).run steps).pending.Keyed := keyed_run .empty steps
  have hquiet : ((new delay).run steps).quiet = (new delay).quiet := quiet_run _ steps
  have hshows : ∀ p, ((new delay).run steps).Shows p (Waiting.alone (new delay).quiet p steps) :=
    fun p => (shows_new delay p).run steps
  generalize (new delay).run steps = d at hkeyed hquiet hshows
  have hremoved : ∀ now p, Tells (d.drain now).1 p → (d.drain now).2.isPending p = false := by
    intro now p htold
    obtain ⟨e, he, hdue⟩ := (tells_drain_iff hkeyed now p).mp htold
    rw [isPending, PathTable.has_eq_isSome_find?, find?_drain_snd, he]
    simp [UInt64.not_lt.mpr hdue]
  refine ⟨fun p => (hshows p).kindOf?_eq, pairwise_drain hkeyed, ?_, hremoved, ?_, ?_,
    nextDeadline_eq_some_iff d, nextDeadline_eq_none_iff hkeyed⟩
  · intro now p kind
    rw [exists_mem_drain_iff hkeyed, (hshows p).find?_eq, (hshows p).kindOf?_eq, ← hquiet]
    cases hw : Waiting.alone d.quiet p steps with
    | none => simp
    | some w => simp [Waiting.lastRecord?_of_alone hw, quiet]
  · intro now p hnot
    rw [find?_drain_snd]
    cases he : d.pending.find? p with
    | none => rfl
    | some e =>
      have hlater : now < e.deadline := UInt64.not_le.mp fun hdue =>
        hnot ((tells_drain_iff hkeyed now p).mpr ⟨e, he, hdue⟩)
      simp [hlater]
  · intro now p htold more hmore now'
    exact not_tells_run (keyed_after hkeyed (.drain now)) (hremoved now p htold) hmore now'

/-- What is quiet matters only of the times at which there was a notification. -/
theorem TellsWhenQuiet.congr {quiet quiet' : UInt64 → UInt64 → Bool} {steps : List DebounceStep}
    (h : TellsWhenQuiet quiet steps d)
    (hsame : ∀ q kind t, .record q kind t ∈ steps → ∀ now, quiet t now = quiet' t now) :
    TellsWhenQuiet quiet' steps d where
  pending := fun p => by rw [h.pending, Waiting.alone_congr hsame]
  sorted := h.sorted
  due := by
    intro now p kind
    rw [h.due]
    refine and_congr_right fun _ => exists_congr fun t => and_congr_right fun ht => ?_
    obtain ⟨q, kind', hmem⟩ := mem_of_lastRecord? ht
    rw [hsame q kind' t hmem]
  removed := h.removed
  kept := h.kept
  once := h.once
  next := h.next
  idle := h.idle

/-- **A path is told when it has been quiet for a delay, whatever other paths do.**  For every
delay and every sequence of notifications, cancellations and drains, at any times:

* A drain tells, in their order and none of them twice, the paths that wait and of which the last
  notification is at least a delay ago.  These no longer wait, and are not told again before
  there is another notification; all others go on to wait.  The next deadline is the first time
  at which a drain would tell something, and there is none if nothing waits.
* A delay after a notification is the sum of two clock readings; as long as a clock can show the
  time of each notification and the whole delay after it, it is the sum of the numbers.
* What the drains tell of a path stays the same if all steps about other paths are left out. -/
theorem each_burst_is_told_once_when_quiet (delay : Duration) (steps : List DebounceStep) :
    TellsWhenQuiet (fun t now => t + delay.span ≤ now) steps ((new delay).run steps) ∧
      ((∀ q kind t, .record q kind t ∈ steps → t.toNat + delay.millis < 2 ^ 64) →
        TellsWhenQuiet (fun t now => t.toNat + delay.millis ≤ now.toNat) steps
          ((new delay).run steps)) ∧
      ∀ p, ((new delay).reports steps).map (List.find? fun x => x.1.same p) =
        ((new delay).reports (steps.filter (concerns p))).map (List.find? fun x => x.1.same p) := by
  refine ⟨tellsWhenQuiet_run delay steps, fun hshown => ?_, fun p => ?_⟩
  · refine (tellsWhenQuiet_run delay steps).congr fun q kind t ht now => ?_
    exact decide_eq_decide.mpr (Duration.add_span_le_iff (hshown q kind t ht))
  · rw [(shows_new delay p).reports_eq .empty, (shows_new delay p).reports_eq .empty,
      Waiting.reports_filter]

end Debouncer

/-! ## 5. The net effect -/

/-- What has happened to a file in the end, by whether it was there before and is there after. -/
def ChangeKind.net? : Bool → Bool → Option ChangeKind
  | false, false => none
  | false, true => some .add
  | true, false => some .remove
  | true, true => some .change

/-- Whether notifications go with a file that is there or away before and after: it is added only
while it is away, and changed or removed only while it is there. -/
inductive ComesAndGoes : Bool → List ChangeKind → Bool → Prop
  | nil (here : Bool) : ComesAndGoes here [] here
  | add {kinds : List ChangeKind} {after : Bool} (rest : ComesAndGoes true kinds after) :
      ComesAndGoes false (.add :: kinds) after
  | change {kinds : List ChangeKind} {after : Bool} (rest : ComesAndGoes true kinds after) :
      ComesAndGoes true (.change :: kinds) after
  | remove {kinds : List ChangeKind} {after : Bool} (rest : ComesAndGoes false kinds after) :
      ComesAndGoes true (.remove :: kinds) after

namespace DebounceStep

/-- Whether a step records a notification. -/
def isRecord : DebounceStep → Bool
  | .record _ _ _ => true
  | _ => false

/-- The kind of change that a step records for a path, if it does. -/
def kindFor? (p : Path) : DebounceStep → Option ChangeKind
  | .record q kind _ => if q.same p then some kind else none
  | _ => none

end DebounceStep

namespace Debouncer

open DebounceStep ChangeKind

variable {d : Debouncer} {p : Path} {before here after : Bool} {kinds : List ChangeKind}

/-- As long as what waits is the net effect so far, it stays the net effect. -/
theorem foldl_next?_net (before : Bool) (h : ComesAndGoes here kinds after) :
    kinds.foldl next? (net? before here) = net? before after := by
  induction h with
  | nil here => rfl
  | add rest ih =>
    have hstep : next? (net? before false) .add = net? before true := by cases before <;> rfl
    rw [List.foldl_cons, hstep, ih]
  | change rest ih =>
    have hstep : next? (net? before true) .change = net? before true := by cases before <;> rfl
    rw [List.foldl_cons, hstep, ih]
  | remove rest ih =>
    have hstep : next? (net? before true) .remove = net? before false := by cases before <;> rfl
    rw [List.foldl_cons, hstep, ih]

/-- **Kinds that are merged one after the other come to their net effect.**  Before the first of
them nothing waits, which is not yet the net effect if the file is there. -/
theorem foldl_next?_eq_net (h : ComesAndGoes before kinds after) (hsome : kinds ≠ []) :
    kinds.foldl next? none = net? before after := by
  cases h with
  | nil => exact absurd rfl hsome
  | add rest => exact foldl_next?_net false rest
  | change rest => exact foldl_next?_net true rest
  | remove rest => exact foldl_next?_net true rest

/-- While notifications are recorded, what waits at a path is merged from its own ones. -/
theorem kindOf?_run_of_isRecord {steps : List DebounceStep}
    (h : ∀ s ∈ steps, s.isRecord = true) :
    (d.run steps).kindOf? p = (steps.filterMap (kindFor? p)).foldl next? (d.kindOf? p) := by
  induction steps generalizing d with
  | nil => rfl
  | cons s steps ih =>
    have hrest := ih (d := d.after s) fun t ht => h t (List.mem_cons_of_mem _ ht)
    cases s with
    | record q kind now =>
      show ((d.record q kind now).run steps).kindOf? p = _
      rw [after] at hrest
      rw [hrest, kindOf?_record, List.filterMap_cons, kindFor?]
      by_cases hq : q.components = p.components
      · rw [if_pos hq.symm, if_pos (Path.same_iff.mpr hq)]
        rfl
      · rw [if_neg (Ne.symm hq), if_neg (mt Path.same_iff.mp hq)]
    | cancel q => cases h _ (List.mem_cons_self ..)
    | drain now => cases h _ (List.mem_cons_self ..)

/-- **A burst leaves its net effect.**  If nothing waits at a path, and notifications are
recorded of which at least one is about the path and those about it go with a file that comes
and goes, then the path waits as added if the file was away and is there, as removed if it was
there and is away, as changed if it was and is there, and it does not wait if the file was and
is away. -/
theorem burst_leaves_net_effect (hidle : d.isPending p = false) {steps : List DebounceStep}
    (hrecords : ∀ s ∈ steps, s.isRecord = true) (hsome : steps.filterMap (kindFor? p) ≠ [])
    (h : ComesAndGoes before (steps.filterMap (kindFor? p)) after) :
    (d.run steps).kindOf? p = net? before after ∧
      (d.run steps).isPending p = (before || after) := by
  have hnone : d.kindOf? p = none := by
    rw [isPending_eq] at hidle
    exact Option.not_isSome_iff_eq_none.mp (by rw [hidle]; exact Bool.false_ne_true)
  have hnet : (d.run steps).kindOf? p = net? before after := by
    rw [kindOf?_run_of_isRecord hrecords, hnone, foldl_next?_eq_net h hsome]
  refine ⟨hnet, ?_⟩
  rw [isPending_eq, hnet]
  cases before <;> cases after <;> rfl

/-- A file is made, deleted and made again under another spelling, while another one changes. -/
def sampleBurst : List DebounceStep :=
  [.record (.ofText "/a") .add 0, .record (.ofText "/b") .change 1,
    .record (.ofText "/a") .remove 2,
    .record (.ofText "//a") .add 9, .record (.ofText "/a") .change 5]

theorem burst_leaves_net_effect_made_again :
    ((new ⟨50⟩).run sampleBurst).kindOf? (.ofText "/a") = some .add ∧
      ((new ⟨50⟩).run sampleBurst).isPending (.ofText "/a") = true := by
  have hkinds : sampleBurst.filterMap (kindFor? (.ofText "/a")) =
      [.add, .remove, .add, .change] := by
    decide
  have hcourse : ComesAndGoes false (sampleBurst.filterMap (kindFor? (.ofText "/a"))) true := by
    rw [hkinds]
    exact .add (.remove (.add (.change (.nil true))))
  have hleft := burst_leaves_net_effect (d := new ⟨50⟩) rfl (by decide)
    (by rw [hkinds]; exact List.cons_ne_nil _ _) hcourse
  exact hleft

end Debouncer
end AnalysisRunner
