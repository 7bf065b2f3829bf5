import Mathlib.Data.List.Nodup
import Mathlib.Data.List.Perm.Basic
import AnalysisRunner.Proofs.Lookup
import AnalysisRunner.Proofs.Pool.Machine

/-!
# The course of a batch

A batch that is left to itself takes actions of three kinds: it dispatches a task, a task in
flight ends and is joined, or a task in flight is lost (`PoolAction.isWork`).  What the batch is
at any moment is a function of what happened in it: which tasks were dispatched, which were
joined and with which outcomes, and which were lost.

`Course p b ds js ls q b'` says this once for all.  It relates two states of a batch, between
which the tasks `ds` were dispatched, the pairs `js` of tasks and outcomes joined and the tasks
`ls` lost, in these orders.  It is reflexive and composes, and every single action is a course
(`course_of_act?`), so every run is one (`course_of_run?`).

The numbers of a batch are what makes a join take out exactly one task.  That is a
separate invariant, `Batch.Sound`, which also says that there is never more in flight
than the limit allows.
-/

namespace AnalysisRunner

/-- Whether an action is one of those that a batch takes by itself. -/
def PoolAction.isWork {ι ο : Type} : PoolAction ι ο → Bool
  | .dispatch | .join _ _ _ | .lose _ => true
  | .add _ | .listen _ | .stop | .reset | .execute | .finish | .cancel => false

/-- Whether an action loses a task. -/
def PoolAction.loses {ι ο : Type} : PoolAction ι ο → Bool
  | .lose _ => true
  | _ => false

namespace Pool

variable {ι ο : Type}

/-! ## 1. What happens in a run -/

/-- The task that an action dispatches. -/
def dispatchedBy (p : Pool ι ο) : PoolAction ι ο → Option (Task ι ο)
  | .dispatch => p.queue.head?
  | _ => none

/-- The task that an action joins, and its outcome. -/
def joinedBy (p : Pool ι ο) : PoolAction ι ο → Option (Task ι ο × Outcome ο)
  | .join number outcome _ =>
    (p.flights.find? fun f => f.number = number).map fun f => (f.task, outcome)
  | _ => none

/-- The task that an action loses. -/
def lostBy (p : Pool ι ο) : PoolAction ι ο → Option (Task ι ο)
  | .lose number => (p.flights.find? fun f => f.number = number).map Flight.task
  | _ => none

/-- The tasks that a run dispatches, in order. -/
def dispatches (p : Pool ι ο) (as : List (PoolAction ι ο)) : List (Task ι ο) :=
  Machine.gather act? dispatchedBy p as

/-- The tasks that a run joins, with their outcomes, in order. -/
def joins (p : Pool ι ο) (as : List (PoolAction ι ο)) : List (Task ι ο × Outcome ο) :=
  Machine.gather act? joinedBy p as

/-- The tasks that a run loses, in order. -/
def losses (p : Pool ι ο) (as : List (PoolAction ι ο)) : List (Task ι ο) :=
  Machine.gather act? lostBy p as

theorem losses_eq_nil {as : List (PoolAction ι ο)} (h : ∀ a ∈ as, a.loses = false) (p : Pool ι ο) :
    p.losses as = [] := by
  refine Machine.gather_eq_nil (fun a ha p => ?_) p
  cases a with
  | lose number => cases h _ ha
  | _ => rfl

end Pool

/-! ## 2. Sound batches -/

/-- The numbers in flight increase and were given out, and there is no more in flight
than the limit allows. -/
structure Batch.Sound {ι ο : Type} (limit : Nat) (b : Batch ι ο) : Prop where
  numbers : (b.flights.map Flight.number).Pairwise (· < ·)
  numbers_lt : ∀ f ∈ b.flights, f.number < b.dispatched
  length_le : b.flights.length ≤ limit

namespace Batch.Sound

variable {ι ο : Type} {limit : Nat} {b : Batch ι ο}

/-- A task more in flight. -/
theorem snoc (h : b.Sound limit) (hroom : b.flights.length < limit) (task : Task ι ο)
    {b' : Batch ι ο} (hflights : b'.flights = b.flights ++ [⟨b.dispatched, task⟩])
    (hnumber : b'.dispatched = b.dispatched + 1) : b'.Sound limit where
  numbers := by
    rw [hflights, List.map_append, List.map_singleton]
    refine List.pairwise_append.mpr ⟨h.numbers, List.pairwise_singleton _ _, ?_⟩
    intro n hn m hm
    obtain ⟨f, hf, rfl⟩ := List.mem_map.mp hn
    rw [List.mem_singleton.mp hm]
    exact h.numbers_lt f hf
  numbers_lt := by
    intro f hf
    rw [hflights, List.mem_append, List.mem_singleton] at hf
    rw [hnumber]
    rcases hf with hf | rfl
    · exact Nat.lt_succ_of_lt (h.numbers_lt f hf)
    · exact Nat.lt_succ_self _
  length_le := by
    rw [hflights, List.length_append, List.length_singleton]
    exact hroom

/-- A number less in flight. -/
theorem without (h : b.Sound limit) (number : Nat) {b' : Batch ι ο}
    (hflights : b'.flights = b.flights.filter fun f => f.number ≠ number)
    (hnumber : b'.dispatched = b.dispatched) : b'.Sound limit where
  numbers := by
    rw [hflights]
    exact h.numbers.sublist (List.filter_sublist.map Flight.number)
  numbers_lt := by
    intro f hf
    rw [hflights] at hf
    rw [hnumber]
    exact h.numbers_lt f (List.mem_of_mem_filter hf)
  length_le := by
    rw [hflights]
    exact Nat.le_trans (List.length_filter_le _ _) h.length_le

theorem nodup (h : b.Sound limit) : (b.flights.map Flight.number).Nodup :=
  h.numbers.imp fun hlt => Nat.ne_of_lt hlt

/-- Of tasks with different numbers, one has a given number. -/
theorem filter_number {fs : List (Flight ι ο)} (h : (fs.map Flight.number).Nodup)
    {f : Flight ι ο} (hf : f ∈ fs) : fs.filter (fun g => decide (g.number = f.number)) = [f] := by
  obtain ⟨before, after, rfl⟩ := List.append_of_mem hf
  rw [List.map_append, List.map_cons, List.nodup_middle, List.nodup_cons, List.mem_append,
    not_or] at h
  have hnone : ∀ gs : List (Flight ι ο), f.number ∉ gs.map Flight.number →
      gs.filter (fun g => decide (g.number = f.number)) = [] := by
    intro gs hgs
    rw [List.filter_eq_nil_iff]
    intro g hg hsame
    exact hgs (of_decide_eq_true hsame ▸ List.mem_map_of_mem hg)
  rw [List.filter_append, List.filter_cons_of_pos (by simp), hnone before h.1.1,
    hnone after h.1.2, List.nil_append]

/-- The tasks in flight are the task with a number and the others. -/
theorem perm_find (h : b.Sound limit) {number : Nat} {f : Flight ι ο}
    (hf : b.flights.find? (fun f => f.number = number) = some f) :
    (f :: b.flights.filter fun f => f.number ≠ number).Perm b.flights := by
  have hnumber : f.number = number := by simpa using List.find?_some hf
  have hone : b.flights.filter (fun g => decide (g.number = number)) = [f] := by
    rw [← hnumber]
    exact filter_number h.nodup (List.mem_of_find?_eq_some hf)
  have hsplit :=
    List.filter_append_perm (fun g : Flight ι ο => decide (g.number = number)) b.flights
  rw [hone] at hsplit
  have hneg : (b.flights.filter fun g => !decide (g.number = number)) =
      b.flights.filter fun g => decide (g.number ≠ number) := by
    apply List.filter_congr
    intro g _
    simp
  rw [hneg] at hsplit
  exact hsplit

end Batch.Sound

/-- What leaves one list goes to one of two others. -/
theorem perm_settled {α : Type} (rest landed completed failed : List α) (failing : Bool) :
    (rest ++ ((if failing then completed else completed ++ landed) ++
      if failing then failed ++ landed else failed)).Perm
      (landed ++ rest ++ (completed ++ failed)) := by
  have hmove : (rest ++ (completed ++ (failed ++ landed))).Perm
      (landed ++ rest ++ (completed ++ failed)) := by
    rw [← List.append_assoc completed, ← List.append_assoc rest, List.append_assoc landed]
    exact List.perm_append_comm
  cases failing
  · refine List.Perm.trans ?_ hmove
    simp only [Bool.false_eq_true, if_false, List.append_assoc]
    exact (List.perm_append_comm.append_left completed).append_left rest
  · exact hmove

/-! ## 3. Courses -/

namespace Pool

variable {ι ο : Type}

/-- From one state of a batch to a later one: tasks dispatched, joined and lost on the way. -/
structure Course (p : Pool ι ο) (b : Batch ι ο) (ds : List (Task ι ο))
    (js : List (Task ι ο × Outcome ο)) (ls : List (Task ι ο)) (q : Pool ι ο) (b' : Batch ι ο) :
    Prop where
  batch : q.batch = some b'
  options : q.options = p.options
  queue : ds ++ q.queue = p.queue
  stopping : q.stopping = p.stopping
  failureSeen : b'.failureSeen =
    (b.failureSeen || (js.any fun j => j.2.isFailure) || !ls.isEmpty)
  results : b'.results = js.foldl (fun t j => t.insert j.1.id j.2) b.results
  tasks : (js.map Prod.fst ++ ls ++ b'.flights.map Flight.task).Perm
    (b.flights.map Flight.task ++ ds)

namespace Course

variable {p q r : Pool ι ο} {b b' b'' : Batch ι ο}

/-- Nothing happens. -/
theorem refl (h : p.batch = some b) : Course p b [] [] [] p b where
  batch := h
  options := rfl
  queue := List.nil_append _
  stopping := rfl
  failureSeen := by simp
  results := rfl
  tasks := by simp

/-- One thing after the other. -/
theorem trans {ds ds' ls ls' : List (Task ι ο)} {js js' : List (Task ι ο × Outcome ο)}
    (h : Course p b ds js ls q b') (h' : Course q b' ds' js' ls' r b'') :
    Course p b (ds ++ ds') (js ++ js') (ls ++ ls') r b'' where
  batch := h'.batch
  options := h'.options.trans h.options
  queue := by rw [List.append_assoc, h'.queue, h.queue]
  stopping := h'.stopping.trans h.stopping
  failureSeen := by
    have hnone : (ls ++ ls').isEmpty = (ls.isEmpty && ls'.isEmpty) := by cases ls <;> rfl
    rw [h'.failureSeen, h.failureSeen, List.any_append, hnone, Bool.not_and]
    ac_rfl
  results := by rw [h'.results, h.results, List.foldl_append]
  tasks := by
    -- what was joined and lost first stays in front, and the rest goes on from the flights
    have hswap : ((js ++ js').map Prod.fst ++ (ls ++ ls') ++ b''.flights.map Flight.task).Perm
        (js.map Prod.fst ++ ls ++ (js'.map Prod.fst ++ ls' ++ b''.flights.map Flight.task)) := by
      rw [List.map_append]
      simp only [List.append_assoc]
      refine List.Perm.append_left _ ?_
      simp only [← List.append_assoc]
      exact (List.perm_append_comm.append_right _).append_right _
    refine hswap.trans ((h'.tasks.append_left _).trans ?_)
    rw [← List.append_assoc, ← List.append_assoc]
    exact h.tasks.append_right ds'

end Course

/-- **Every action of a batch is a course.** -/
theorem course_of_act? {p q : Pool ι ο} {b : Batch ι ο} {a : PoolAction ι ο} (hb : p.batch = some b)
    (hsound : b.Sound p.options.limit) (ha : a.isWork = true) (hact : p.act? a = some q) :
    ∃ b', Course p b (p.dispatchedBy a).toList (p.joinedBy a).toList (p.lostBy a).toList q b' ∧
      b'.Sound q.options.limit := by
  have hsame := Course.refl hb
  cases a with
  | dispatch =>
    obtain ⟨b₀, t, rest, hb₀, hqueue, hroom, -, rfl⟩ := dispatch?_eq_some_iff.mp hact
    obtain rfl := Option.some.inj (hb.symm.trans hb₀)
    have hds : (p.dispatchedBy .dispatch).toList = [t] := by
      rw [dispatchedBy, hqueue]
      rfl
    rw [hds]
    refine ⟨_, { hsame with batch := rfl, queue := hqueue.symm, tasks := ?_ },
      hsound.snoc hroom t rfl rfl⟩
    show ((b.flights ++ [_]).map Flight.task).Perm _
    rw [List.map_append]
    rfl
  | join number o took =>
    obtain ⟨b₀, f, hb₀, hf, rfl⟩ := join?_eq_some_iff.mp hact
    obtain rfl := Option.some.inj (hb.symm.trans hb₀)
    have hjs : (p.joinedBy (.join number o took)).toList = [(f.task, o)] := by
      rw [joinedBy, flights_of_batch hb, hf]
      rfl
    rw [hjs]
    refine ⟨_, { hsame with batch := rfl, failureSeen := ?_, results := rfl, tasks := ?_ },
      hsound.without number rfl rfl⟩
    · show (b.failureSeen || o.isFailure) = _
      simp [lostBy]
    · show ((f :: b.flights.filter fun f => f.number ≠ number).map Flight.task).Perm
        (b.flights.map Flight.task ++ [])
      rw [List.append_nil]
      exact (hsound.perm_find hf).map Flight.task
  | lose number =>
    obtain ⟨b₀, f, hb₀, hf, rfl⟩ := lose?_eq_some_iff.mp hact
    obtain rfl := Option.some.inj (hb.symm.trans hb₀)
    have hls : (p.lostBy (.lose number)).toList = [f.task] := by
      rw [lostBy, flights_of_batch hb, hf]
      rfl
    rw [hls]
    refine ⟨_, { hsame with batch := rfl, failureSeen := ?_, tasks := ?_ },
      hsound.without number rfl rfl⟩
    · show true = _
      simp
    · show ((f :: b.flights.filter fun f => f.number ≠ number).map Flight.task).Perm
        (b.flights.map Flight.task ++ [])
      rw [List.append_nil]
      exact (hsound.perm_find hf).map Flight.task
  | add task => cases ha
  | listen listener => cases ha
  | stop => cases ha
  | reset => cases ha
  | execute => cases ha
  | finish => cases ha
  | cancel => cases ha

/-- **Every run of a batch that is left to itself is a course.** -/
theorem course_of_run? {p q : Pool ι ο} {b : Batch ι ο} {as : List (PoolAction ι ο)}
    (hb : p.batch = some b) (hsound : b.Sound p.options.limit)
    (has : ∀ a ∈ as, a.isWork = true) (hrun : p.run? as = some q) :
    ∃ b', Course p b (p.dispatches as) (p.joins as) (p.losses as) q b' ∧
      b'.Sound q.options.limit := by
  induction as generalizing p b with
  | nil =>
    obtain rfl := Option.some.inj hrun
    exact ⟨b, Course.refl hb, hsound⟩
  | cons a as ih =>
    obtain ⟨r, hr, hq⟩ := run?_cons_eq_some_iff.mp hrun
    obtain ⟨b', hstep, hsound'⟩ := course_of_act? hb hsound (has a (List.mem_cons_self ..)) hr
    obtain ⟨b'', hrest, hsound''⟩ :=
      ih hstep.batch hsound' (fun x hx => has x (List.mem_cons_of_mem _ hx)) hq
    refine ⟨b'', ?_, hsound''⟩
    rw [dispatches, joins, losses, Machine.gather_cons hr, Machine.gather_cons hr,
      Machine.gather_cons hr]
    exact hstep.trans hrest

/-! ## 4. From the beginning of a batch -/

/-- The batch as it begins. -/
def opening (p : Pool ι ο) : Batch ι ο :=
  ⟨[], 0, p.queue.length, 0, false, .empty, p.listener, []⟩

theorem sound_opening (p : Pool ι ο) (limit : Nat) : p.opening.Sound limit where
  numbers := List.Pairwise.nil
  numbers_lt := by
    intro f hf
    cases hf
  length_le := Nat.zero_le _

/-- The whole course of a batch so far. -/
theorem course_of_begin {p p₀ q : Pool ι ο} {as : List (PoolAction ι ο)}
    (hbegin : p.begin = .ok p₀) (has : ∀ a ∈ as, a.isWork = true) (hrun : p₀.run? as = some q) :
    ∃ b, Course p₀ p.opening (p₀.dispatches as) (p₀.joins as) (p₀.losses as) q b ∧
      b.Sound q.options.limit := by
  obtain ⟨-, rfl⟩ := begin_eq_ok_iff.mp hbegin
  exact course_of_run? rfl (p.sound_opening _) has hrun

end Pool
end AnalysisRunner
