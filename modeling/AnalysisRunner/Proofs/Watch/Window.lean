import AnalysisRunner.Proofs.Clock
import AnalysisRunner.Proofs.Watch.Dispatch

/-!
# Windows do not slide

A window keeps two things apart, a batch and a deadline, and three operations change them: a
change is collected, what is due is taken, and what there is is flushed.  They must never
disagree.  A deadline without a batch would wake a dispatcher for nothing, over and over, and a
batch without a deadline would never be handed out.

They agree because both are about the same thing: what was pushed since the window was last
emptied.  The deadline is about the first of these pushes and the batch is about all of them
(`Window.Collects`).  A run is cut where the window was last emptied (`Window.IsCut`); every run
has such a cut (`Window.exists_isCut`), at the cut the window is new, and from there on every step
that does not empty the window keeps it collecting (`Window.Collects.step`).

The deadline is a clock reading.  It is the time of the first push and the whole length of the
window after it only if a clock can show that time; otherwise the window closes early
(`Window.Collects.deadline_eq_iff`).
-/

namespace AnalysisRunner

/-- What can be done with a window. -/
inductive WindowStep where
  | push (c : Change) (now : UInt64)
  | takeDue (now : UInt64)
  | flush

/-- What a list of steps pushes, with the times. -/
def WindowStep.pushes (steps : List WindowStep) : List (Change × UInt64) :=
  steps.filterMap fun
    | .push c now => some (c, now)
    | _ => none

namespace Window

open WindowStep

/-! ## 1. Steps -/

/-- The batch that a step hands out, if it does, and the window after it. -/
def step (w : Window) : WindowStep → Option (List Change) × Window
  | .push c now => (none, w.push c now)
  | .takeDue now => w.takeDue now
  | .flush => w.flush

/-- The window after several steps. -/
def run (w : Window) (steps : List WindowStep) : Window :=
  steps.foldl (fun w s => (w.step s).2) w

/-- Whether a step empties a window: all is flushed, or what is due is handed out. -/
def IsEmptiedBy (w : Window) : WindowStep → Prop
  | .push _ _ => False
  | .takeDue now => (w.takeDue now).1.isSome = true
  | .flush => True

/-- Whether a run is cut where the window was last emptied: the first part ends with a step that
empties it, or is empty itself, and no step of the second part empties it. -/
structure IsCut (w : Window) (before after : List WindowStep) : Prop where
  emptied : before = [] ∨ ∃ earlier s, before = earlier ++ [s] ∧ (w.run earlier).IsEmptiedBy s
  quiet : ∀ xs s ys, after = xs ++ s :: ys → ¬ (w.run (before ++ xs)).IsEmptiedBy s

/-- Whether a window of a length holds exactly what these pushes brought: it closes a length after
the first of them, and its batch sums them all up. -/
structure Collects (length : Duration) (pushes : List (Change × UInt64)) (w : Window) : Prop where
  size : w.length = length.span
  deadline : w.deadline = pushes.head?.map fun x => x.2 + length.span
  batch : Change.IsBatchOf (pushes.map Prod.fst) w.batch

variable {w : Window} {length : Duration} {pushed : List (Change × UInt64)}

theorem run_append_singleton (w : Window) (steps : List WindowStep) (s : WindowStep) :
    w.run (steps ++ [s]) = ((w.run steps).step s).2 := by
  rw [run, List.foldl_append]
  rfl

theorem collects_new (length : Duration) : Collects length [] (new length) :=
  ⟨rfl, rfl, .nil⟩

namespace Collects

/-- **A window has a deadline exactly if there is something in it.** -/
theorem isSome_deadline_iff (h : Collects length pushed w) :
    w.deadline.isSome = true ↔ w.batch ≠ [] := by
  rw [h.deadline, Ne, ← h.batch.eq_nil_iff]
  cases pushed with
  | nil => simp
  | cons x rest => simp

/-- **A window closes on time exactly if a clock can show that time.** -/
theorem deadline_eq_iff (h : Collects length pushed w) {x : Change × UInt64}
    (hfirst : pushed.head? = some x) :
    w.deadline.map UInt64.toNat = some (x.2.toNat + length.millis) ↔
      x.2.toNat + length.millis < 2 ^ 64 := by
  rw [h.deadline, hfirst, Option.map_some, Option.map_some, Option.some_inj]
  exact Duration.toNat_add_span_eq_iff

/-- Collecting a change puts the deadline only if there is none. -/
theorem push (h : Collects length pushed w) (c : Change) (now : UInt64) :
    Collects length (pushed ++ [(c, now)]) (w.push c now) := by
  refine ⟨h.size, ?_, ?_⟩
  · rw [Window.push, h.deadline, h.size]
    cases pushed with
    | nil => rfl
    | cons x rest => rfl
  · rw [List.map_append]
    exact h.batch.place c

theorem flush_eq (h : Collects length pushed w) :
    w.flush = (if w.batch = [] then none else some w.batch, new length) := by
  rw [flush, new, ← h.size]
  cases w.batch <;> rfl

/-- **The whole batch is handed out when the deadline has come, and before that nothing
happens.** -/
theorem takeDue_eq (h : Collects length pushed w) (now : UInt64) :
    w.takeDue now =
      if w.deadline.any (· ≤ now) then (some w.batch, new length) else (none, w) := by
  have hbatch := h.isSome_deadline_iff
  rw [takeDue]
  cases hdeadline : w.deadline with
  | none => rfl
  | some deadline =>
    rw [hdeadline] at hbatch
    rw [h.flush_eq, if_neg (hbatch.mp rfl)]
    simp

/-- A step empties a window and leaves it new, or goes on collecting. -/
theorem step (h : Collects length pushed w) (s : WindowStep) :
    w.IsEmptiedBy s ∧ (w.step s).2 = new length ∨
      ¬ w.IsEmptiedBy s ∧ Collects length (pushed ++ pushes [s]) (w.step s).2 := by
  cases s with
  | push c now => exact .inr ⟨id, h.push c now⟩
  | flush => exact .inl ⟨trivial, congrArg Prod.snd h.flush_eq⟩
  | takeDue now =>
    rw [IsEmptiedBy, Window.step, h.takeDue_eq]
    split
    · exact .inl ⟨rfl, rfl⟩
    · refine .inr ⟨Bool.false_ne_true, ?_⟩
      rw [show pushes [.takeDue now] = [] from rfl, List.append_nil]
      exact h

/-- **No step hands out an empty batch.** -/
theorem step_ne_some_nil (h : Collects length pushed w) (s : WindowStep) :
    (w.step s).1 ≠ some [] := by
  cases s with
  | push c now => exact (Option.some_ne_none _).symm
  | flush =>
    rw [Window.step, h.flush_eq]
    split
    · exact (Option.some_ne_none _).symm
    · rename_i hbatch
      exact fun hnil => hbatch (Option.some.inj hnil)
  | takeDue now =>
    rw [Window.step, h.takeDue_eq]
    split
    · rename_i hdue
      obtain ⟨deadline, hdeadline, -⟩ := (Option.any_eq_true ..).mp hdue
      have hbatch := h.isSome_deadline_iff.mp (Option.isSome_iff_exists.mpr ⟨deadline, hdeadline⟩)
      exact fun hnil => hbatch (Option.some.inj hnil)
    · exact (Option.some_ne_none _).symm

end Collects

/-! ## 2. Runs -/

/-- **A window that has collected for a run goes on doing so or is emptied**, so it holds what was
pushed since the last cut. -/
theorem exists_isCut (length : Duration) (steps : List WindowStep) :
    ∃ before after, steps = before ++ after ∧ (new length).IsCut before after ∧
      Collects length (pushes after) ((new length).run steps) := by
  induction steps using List.reverseRecOn with
  | nil => exact ⟨[], [], rfl, ⟨.inl rfl, by simp⟩, collects_new length⟩
  | append_singleton steps s ih =>
    obtain ⟨before, after, hsteps, hcut, hcollects⟩ := ih
    rw [run_append_singleton]
    rcases hcollects.step s with ⟨hempties, hnew⟩ | ⟨hquiet, hgoes⟩
    · refine ⟨steps ++ [s], [], (List.append_nil _).symm, ⟨.inr ⟨steps, s, rfl, hempties⟩, ?_⟩, ?_⟩
      · simp
      · rw [hnew]
        exact collects_new length
    · refine ⟨before, after ++ [s], by rw [hsteps, List.append_assoc], ⟨hcut.emptied, ?_⟩, ?_⟩
      · intro xs s' ys hsplit
        rcases List.eq_nil_or_concat' ys with rfl | ⟨ys, last, rfl⟩
        · -- the step is the last one
          obtain ⟨rfl, hlast⟩ := List.append_inj' hsplit rfl
          obtain rfl := List.singleton_inj.mp hlast
          rwa [← hsteps]
        · rw [← List.cons_append, ← List.append_assoc] at hsplit
          exact hcut.quiet xs s' ys (List.append_inj' hsplit rfl).1
      · rw [pushes, List.filterMap_append]
        exact hgoes

/-- **A window opens with the first change and keeps the last one of every path.**  After any
steps, cut the run where the window was last emptied.  Then

* there is a deadline exactly if the batch is not empty;
* the deadline is the time of the first push since the cut, plus the length of the window, both
  taken as clock readings, and it is the sum of the two exactly if a clock can show that sum;
* the batch sums up what was pushed since the cut: one change for each path, the last one, in the
  order in which the paths first came;
* what is due is taken exactly when the deadline has come: then the whole batch is handed out and
  the window is as new, and otherwise nothing changes;
* and no step hands out an empty batch. -/
theorem opens_with_first_and_keeps_last (length : Duration) (steps : List WindowStep) :
    ∃ before after, steps = before ++ after ∧ (new length).IsCut before after ∧
      let w := (new length).run steps
      (w.deadline.isSome = true ↔ w.batch ≠ []) ∧
      w.deadline = (pushes after).head?.map (fun x => x.2 + length.span) ∧
      (∀ x, (pushes after).head? = some x →
        (w.deadline.map UInt64.toNat = some (x.2.toNat + length.millis) ↔
          x.2.toNat + length.millis < 2 ^ 64)) ∧
      Change.IsBatchOf ((pushes after).map Prod.fst) w.batch ∧
      (∀ now, w.takeDue now =
        if w.deadline.any (· ≤ now) then (some w.batch, new length) else (none, w)) ∧
      ∀ s, (w.step s).1 ≠ some [] := by
  obtain ⟨before, after, hsteps, hcut, hcollects⟩ := exists_isCut length steps
  exact ⟨before, after, hsteps, hcut, hcollects.isSome_deadline_iff, hcollects.deadline,
    fun x hfirst => hcollects.deadline_eq_iff hfirst, hcollects.batch, hcollects.takeDue_eq,
    hcollects.step_ne_some_nil⟩

end Window
end AnalysisRunner
