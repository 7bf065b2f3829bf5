import Mathlib.Data.List.Induction

/-!
# Runs of a machine

A machine is given by its steps: what a state becomes by an action, if the action is possible
then.  A run is a list of actions, each of which is possible when it comes.

What can be seen of a run is gathered from its actions, each in the state in which it was
done (`gather`).  A run that is cut in two shows first what its first part shows, and then what
its second part shows from where the first one ended (`gather_append`).
-/

namespace AnalysisRunner
namespace Machine

variable {σ α β : Type} {step : σ → α → Option σ} {observe : σ → α → Option β} {s t : σ} {a : α}
  {as bs : List α}

/-- The state after several actions, if each is possible when it comes. -/
def run? (step : σ → α → Option σ) (s : σ) : List α → Option σ
  | [] => some s
  | a :: rest => (step s a).bind fun t => run? step t rest

/-- What can be seen of a run, action by action. -/
def gather (step : σ → α → Option σ) (observe : σ → α → Option β) (s : σ) : List α → List β
  | [] => []
  | a :: rest => (observe s a).toList ++
    match step s a with
    | some t => gather step observe t rest
    | none => []

theorem run?_cons_eq_some_iff :
    run? step s (a :: as) = some t ↔ ∃ r, step s a = some r ∧ run? step r as = some t := by
  rw [run?, Option.bind_eq_some_iff]

theorem run?_append_eq_some_iff :
    run? step s (as ++ bs) = some t ↔ ∃ r, run? step s as = some r ∧ run? step r bs = some t := by
  induction as generalizing s with
  | nil => simp [run?]
  | cons a as ih =>
    rw [List.cons_append, run?, run?]
    cases step s a with
    | none => simp
    | some r => exact ih

theorem run?_concat_eq_some_iff :
    run? step s (as ++ [a]) = some t ↔ ∃ r, run? step s as = some r ∧ step r a = some t := by
  rw [run?_append_eq_some_iff]
  simp [run?]

/-- **What holds at first and is kept by every step holds after every run.** -/
theorem run?_induction {P : σ → Prop}
    (hstep : ∀ r, ∀ a ∈ as, ∀ r', P r → step r a = some r' → P r') (h : P s)
    (hrun : run? step s as = some t) : P t := by
  induction as generalizing s with
  | nil => exact Option.some.inj hrun ▸ h
  | cons a as ih =>
    obtain ⟨r, hr, hrest⟩ := run?_cons_eq_some_iff.mp hrun
    exact ih (fun r b hb => hstep r b (List.mem_cons_of_mem a hb))
      (hstep s a (List.mem_cons_self ..) r h hr) hrest

theorem gather_cons {r : σ} (h : step s a = some r) (rest : List α) :
    gather step observe s (a :: rest) =
      (observe s a).toList ++ gather step observe r rest := by
  rw [gather, h]

theorem gather_append (h : run? step s as = some t) (bs : List α) :
    gather step observe s (as ++ bs) = gather step observe s as ++ gather step observe t bs := by
  induction as generalizing s with
  | nil =>
    obtain rfl := Option.some.inj h
    rfl
  | cons a as ih =>
    obtain ⟨r, hr, ht⟩ := run?_cons_eq_some_iff.mp h
    rw [List.cons_append, gather_cons hr, gather_cons hr, ih ht, List.append_assoc]

theorem gather_concat (h : run? step s as = some t) (a : α) :
    gather step observe s (as ++ [a]) = gather step observe s as ++ (observe t a).toList := by
  rw [gather_append h, gather]
  cases step t a <;> simp [gather]

/-- What no action shows is not seen. -/
theorem gather_eq_nil (h : ∀ a ∈ as, ∀ s, observe s a = none) (s : σ) :
    gather step observe s as = [] := by
  induction as generalizing s with
  | nil => rfl
  | cons a as ih =>
    rw [gather, h a (List.mem_cons_self ..)]
    cases step s a with
    | none => rfl
    | some r => exact ih (fun x hx => h x (List.mem_cons_of_mem _ hx)) r

end Machine
end AnalysisRunner
