import AnalysisRunner.Proofs.Pool.Course
import AnalysisRunner.Text.Decimal

/-!
# A round

A *round* is a batch that is left to itself, from its beginning to its end.  Which task ends
next, and how, is open.  A round is known by the tasks that were joined, with their outcomes in
the order in which they came, and by the results.

A task may also be lost, if it ends and leaves nothing that could be told.  A round with losses
is known by the lost tasks too (`LossyRound`); in a round in the plain sense no task is lost.

Of every round it is known which tasks ran: a front of the queue, and all of it unless failures
count and one was seen (`LossyRound.queue`, `Round.queue`).  And it is known what the results
are: if the tasks have different names, what was joined and nothing else
(`LossyRound.get?_eq_some_iff`).  A lost task has no result.

No batch that is left to itself gets stuck, and none goes on for ever (`comesToEnd`).  A task is
dispatched once and leaves the flights once, so there are at most two actions for each task, and
as long as the batch is not over one of them is possible.
-/

namespace AnalysisRunner

theorem decimal_injective : Function.Injective decimal := by
  intro m n h
  have hdigits : Nat.toDigits 10 m = Nat.toDigits 10 n := String.ofList_injective h
  rw [← Nat.ofDigitChars_ten_toDigits (n := m), hdigits, Nat.ofDigitChars_ten_toDigits]

variable {ι ο : Type}

namespace Pool

/-- A new pool with tasks: they are in the queue, and nothing runs. -/
theorem addAll_new (options : PoolOptions) (ts : List (Task ι ο)) :
    ((new options).addAll ts).queue = ts ∧ ((new options).addAll ts).batch = none ∧
      ((new options).addAll ts).options = { options with limit := max options.limit 1 } := by
  have hall : ∀ (ts : List (Task ι ο)) (p : Pool ι ο),
      (p.addAll ts).queue = p.queue ++ ts ∧ (p.addAll ts).batch = p.batch ∧
        (p.addAll ts).options = p.options := by
    intro ts
    induction ts with
    | nil =>
      intro p
      exact ⟨(List.append_nil _).symm, rfl, rfl⟩
    | cons t ts ih =>
      intro p
      obtain ⟨hqueue, hbatch, hoptions⟩ := ih (p.add t)
      refine ⟨?_, hbatch, hoptions⟩
      show ((p.add t).addAll ts).queue = _
      rw [hqueue, add, List.append_assoc, List.singleton_append]
  exact hall ts (new options)

/-! ## 1. Batches left to themselves -/

variable {p p₀ q : Pool ι ο} {as : List (PoolAction ι ο)}

/-- What a batch left to itself has done so far: it has dispatched a front of the queue, and of
that the tasks joined and the tasks lost are no longer in flight. -/
theorem work_of_begin (hbegin : p.begin = .ok p₀) (has : ∀ a ∈ as, a.isWork = true)
    (hrun : p₀.run? as = some q) :
    ∃ b, q.batch = some b ∧ q.options = p.options ∧ p₀.dispatches as ++ q.queue = p.queue ∧
      ((p₀.joins as).map Prod.fst ++ p₀.losses as ++ b.flights.map Flight.task).Perm
        (p₀.dispatches as) ∧
      q.isHalted b = (p.options.stopOnError &&
        (((p₀.joins as).any fun j => j.2.isFailure) || !(p₀.losses as).isEmpty)) ∧
      b.results = (p₀.joins as).foldl (fun t j => t.insert j.1.id j.2) .empty := by
  obtain ⟨b, hcourse, -⟩ := course_of_begin hbegin has hrun
  obtain ⟨-, rfl⟩ := begin_eq_ok_iff.mp hbegin
  refine ⟨b, hcourse.batch, hcourse.options, hcourse.queue, hcourse.tasks, ?_, hcourse.results⟩
  rw [isHalted, hcourse.stopping, hcourse.failureSeen, hcourse.options]
  rfl

theorem length_of_isWork (has : ∀ a ∈ as, a.isWork = true) (hrun : p.run? as = some q) :
    as.length = (p.dispatches as).length + (p.joins as).length + (p.losses as).length := by
  unfold dispatches joins losses
  induction as generalizing p with
  | nil => rfl
  | cons a as ih =>
    obtain ⟨r, hr, hq⟩ := run?_cons_eq_some_iff.mp hrun
    have hone : (p.dispatchedBy a).toList.length + (p.joinedBy a).toList.length +
        (p.lostBy a).toList.length = 1 := by
      have hwork := has a (List.mem_cons_self ..)
      cases a with
      | dispatch =>
        obtain ⟨b, t, rest, -, hqueue, -⟩ := dispatch?_eq_some_iff.mp hr
        rw [dispatchedBy, hqueue]
        rfl
      | join number o took =>
        obtain ⟨b, f, hb, hf, -⟩ := join?_eq_some_iff.mp hr
        rw [joinedBy, flights_of_batch hb, hf]
        rfl
      | lose number =>
        obtain ⟨b, f, hb, hf, -⟩ := lose?_eq_some_iff.mp hr
        rw [lostBy, flights_of_batch hb, hf]
        rfl
      | _ => cases hwork
    have hrest := ih (fun x hx => has x (List.mem_cons_of_mem _ hx)) hq
    rw [Machine.gather_cons hr, Machine.gather_cons hr, Machine.gather_cons hr,
      List.length_append, List.length_append, List.length_append, List.length_cons]
    omega

/-- There are at most two actions for each task. -/
theorem length_le_of_isWork (hbegin : p.begin = .ok p₀) (has : ∀ a ∈ as, a.isWork = true)
    (hrun : p₀.run? as = some q) : as.length ≤ 2 * p.queue.length := by
  obtain ⟨b, -, -, hqueue, htasks, -⟩ := work_of_begin hbegin has hrun
  have hlength := length_of_isWork has hrun
  have hjoined := htasks.length_eq
  rw [List.length_append, List.length_append, List.length_map] at hjoined
  rw [← hqueue, List.length_append]
  omega

/-- A batch left to itself is over, or it can take an action by which nothing is lost; when a
task ends, it may end in any way. -/
theorem exists_work (hbegin : p.begin = .ok p₀) (hlimit : 1 ≤ p.options.limit)
    (has : ∀ a ∈ as, a.isWork = true) (hrun : p₀.run? as = some q)
    (outcome : Task ι ο → Outcome ο) :
    (∃ results r, q.finish? = some (results, r)) ∨
      ∃ a r, a.isWork = true ∧ q.act? a = some r ∧ q.lostBy a = none ∧
        ∀ j ∈ (q.joinedBy a).toList, j.2 = outcome j.1 := by
  obtain ⟨b, hb, hoptions, -, -, -⟩ := work_of_begin hbegin has hrun
  cases hflights : b.flights with
  | cons f fs =>
    have hfind : b.flights.find? (fun g => g.number = f.number) = some f := by
      rw [hflights, List.find?_cons_of_pos (by simp)]
    refine .inr ⟨.join f.number (outcome f.task) 0, _, rfl,
      join?_eq_some_iff.mpr ⟨b, f, hb, hfind, rfl⟩, rfl, ?_⟩
    intro j hj
    rw [joinedBy, flights_of_batch hb, hfind] at hj
    rw [List.mem_singleton.mp hj]
  | nil =>
    by_cases hover : q.queue = [] ∨ q.isHalted b = true
    · exact .inl ⟨_, _, finish?_eq_some_iff.mpr ⟨b, hb, hflights, hover, rfl, rfl⟩⟩
    · rw [not_or, Bool.not_eq_true] at hover
      obtain ⟨t, rest, hqueue⟩ := List.exists_cons_of_ne_nil hover.1
      have hroom : b.flights.length < q.options.limit := by
        rw [hflights, hoptions]
        exact hlimit
      refine .inr ⟨.dispatch, _, rfl,
        dispatch?_eq_some_iff.mpr ⟨b, t, rest, hb, hqueue, hroom, hover.2, rfl⟩, rfl, ?_⟩
      intro j hj
      cases hj

/-! ## 2. Rounds -/

/-- A batch from its beginning to its end, left to itself: the tasks that were joined with
their outcomes, in order, the tasks that were lost, and the results. -/
def LossyRound (p : Pool ι ο) (ran : List (Task ι ο × Outcome ο)) (lost : List (Task ι ο))
    (results : Table String (Outcome ο)) : Prop :=
  ∃ p₀ as q r, p.begin = .ok p₀ ∧ (∀ a ∈ as, a.isWork = true) ∧ p₀.run? as = some q ∧
    q.finish? = some (results, r) ∧ p₀.joins as = ran ∧ p₀.losses as = lost

/-- A batch from its beginning to its end, left to itself, in which no task is lost. -/
def Round (p : Pool ι ο) (ran : List (Task ι ο × Outcome ο))
    (results : Table String (Outcome ο)) : Prop :=
  p.LossyRound ran [] results

section

variable {ran : List (Task ι ο × Outcome ο)} {lost : List (Task ι ο)}
  {results : Table String (Outcome ο)}

/-- **What runs is a front of the queue**, and all of it unless failures count and one of
them was seen.  A lost task is a failure. -/
theorem LossyRound.queue (h : p.LossyRound ran lost results) :
    ∃ front rest, p.queue = front ++ rest ∧ (ran.map Prod.fst ++ lost).Perm front ∧
      (rest ≠ [] → p.options.stopOnError = true ∧
        ((∃ j ∈ ran, j.2.isFailure = true) ∨ lost ≠ [])) := by
  obtain ⟨p₀, as, q, r, hbegin, has, hrun, hfinish, rfl, rfl⟩ := h
  obtain ⟨b, hb, -, hqueue, htasks, hhalted, -⟩ := work_of_begin hbegin has hrun
  obtain ⟨b', hb', hflights, hover, -, -⟩ := finish?_eq_some_iff.mp hfinish
  obtain rfl := Option.some.inj (hb.symm.trans hb')
  rw [hflights, List.map_nil, List.append_nil] at htasks
  refine ⟨p₀.dispatches as, q.queue, hqueue.symm, htasks, fun hrest => ?_⟩
  have hhalt := hover.resolve_left hrest
  rw [hhalted, Bool.and_eq_true, Bool.or_eq_true, List.any_eq_true] at hhalt
  refine ⟨hhalt.1, hhalt.2.imp id fun hlost hnil => ?_⟩
  rw [hnil] at hlost
  cases hlost

/-- **The results are what was joined**, if no two tasks have one name. -/
theorem LossyRound.get?_eq_some_iff (h : p.LossyRound ran lost results)
    (hids : (p.queue.map Task.id).Nodup) {id : String} {o : Outcome ο} :
    results.get? id = some o ↔ ∃ j ∈ ran, j.1.id = id ∧ j.2 = o := by
  obtain ⟨front, rest, hqueue, hran, -⟩ := h.queue
  have hnodup : (ran.map fun j => j.1.id).Nodup := by
    rw [hqueue, List.map_append] at hids
    have hperm := (hran.map Task.id).nodup_iff.mpr (List.nodup_append.mp hids).1
    rw [List.map_append, List.map_map] at hperm
    exact (List.nodup_append.mp hperm).1
  obtain ⟨p₀, as, q, r, hbegin, has, hrun, hfinish, rfl, rfl⟩ := h
  obtain ⟨b, hb, -, -, -, -, hresults⟩ := work_of_begin hbegin has hrun
  obtain ⟨b', hb', -, -, rfl, -⟩ := finish?_eq_some_iff.mp hfinish
  obtain rfl := Option.some.inj (hb.symm.trans hb')
  rw [hresults]
  constructor
  · intro hget
    rcases Table.get?_foldl_insert_cases (fun j : Task ι ο × Outcome ο => j.1.id) Prod.snd hget
      with hfound | hnone
    · exact hfound
    · cases hnone
  · rintro ⟨j, hj, rfl, rfl⟩
    exact Table.get?_foldl_insert_of_mem (fun j : Task ι ο × Outcome ο => j.1.id) Prod.snd _
      hnodup hj

namespace Round

/-- What runs is a front of the queue, and all of it unless failures count and one of
them ran. -/
theorem queue (h : p.Round ran results) :
    ∃ front rest, p.queue = front ++ rest ∧ (ran.map Prod.fst).Perm front ∧
      (rest ≠ [] → p.options.stopOnError = true ∧ ∃ j ∈ ran, j.2.isFailure = true) := by
  obtain ⟨front, rest, hqueue, hran, hrest⟩ := LossyRound.queue h
  rw [List.append_nil] at hran
  exact ⟨front, rest, hqueue, hran, fun hne =>
    (hrest hne).imp_right fun hseen => hseen.resolve_right fun hlost => hlost rfl⟩

theorem mem_queue (h : p.Round ran results) {j : Task ι ο × Outcome ο} (hj : j ∈ ran) :
    j.1 ∈ p.queue := by
  obtain ⟨front, rest, hqueue, hran, -⟩ := h.queue
  rw [hqueue]
  exact List.mem_append_left _ (hran.mem_iff.mp (List.mem_map_of_mem hj))

theorem get?_eq_some_iff (h : p.Round ran results) (hids : (p.queue.map Task.id).Nodup)
    {id : String} {o : Outcome ο} :
    results.get? id = some o ↔ ∃ j ∈ ran, j.1.id = id ∧ j.2 = o :=
  LossyRound.get?_eq_some_iff h hids

end Round

end

/-! ## 3. Every round comes to its end -/

/-- However a batch was begun and left to itself so far, it has only so many actions to take,
and it can be carried on to its end with any outcomes of the tasks that are left. -/
def ComesToEnd (p : Pool ι ο) : Prop :=
  ∃ p₀, p.begin = .ok p₀ ∧ ∀ as q, (∀ a ∈ as, a.isWork = true) → p₀.run? as = some q →
    as.length ≤ 2 * p.queue.length ∧ ∀ outcome : Task ι ο → Outcome ο,
      ∃ later results, p.LossyRound (p₀.joins as ++ later) (p₀.losses as) results ∧
        ∀ j ∈ later, j.2 = outcome j.1

/-- A batch left to itself can be carried on to its end. -/
theorem exists_round {p p₀ q : Pool ι ο} {as : List (PoolAction ι ο)}
    (hbegin : p.begin = .ok p₀) (hlimit : 1 ≤ p.options.limit)
    (has : ∀ a ∈ as, a.isWork = true) (hrun : p₀.run? as = some q)
    (outcome : Task ι ο → Outcome ο) :
    ∃ later results, p.LossyRound (p₀.joins as ++ later) (p₀.losses as) results ∧
      ∀ j ∈ later, j.2 = outcome j.1 := by
  rcases exists_work hbegin hlimit has hrun outcome with
    ⟨results, r, hfinish⟩ | ⟨a, r, ha, hact, hlost, hjoined⟩
  · refine ⟨[], results,
      ⟨p₀, as, q, r, hbegin, has, hrun, hfinish, (List.append_nil _).symm, rfl⟩, ?_⟩
    intro j hj
    cases hj
  · have has' : ∀ x ∈ as ++ [a], x.isWork = true := by
      intro x hx
      rcases List.mem_append.mp hx with hx | hx
      · exact has x hx
      · rw [List.mem_singleton.mp hx]
        exact ha
    have hrun' : p₀.run? (as ++ [a]) = some r :=
      run?_append_eq_some_iff.mpr ⟨q, hrun, run?_cons_eq_some_iff.mpr ⟨r, hact, rfl⟩⟩
    have hjoins : p₀.joins (as ++ [a]) = p₀.joins as ++ (q.joinedBy a).toList :=
      Machine.gather_concat hrun a
    have hlosses : p₀.losses (as ++ [a]) = p₀.losses as := by
      rw [losses, Machine.gather_concat hrun, hlost, Option.toList_none, List.append_nil]
      rfl
    have hbound := length_le_of_isWork hbegin has' hrun'
    obtain ⟨later, results, hround, hlater⟩ := exists_round hbegin hlimit has' hrun' outcome
    rw [hjoins, hlosses, List.append_assoc] at hround
    refine ⟨(q.joinedBy a).toList ++ later, results, hround, ?_⟩
    intro j hj
    rcases List.mem_append.mp hj with hj | hj
    · exact hjoined j hj
    · exact hlater j hj
termination_by 2 * p.queue.length - as.length
decreasing_by
  rw [List.length_append, List.length_singleton] at *
  omega

/-- **No batch that is left to itself gets stuck or goes on for ever.** -/
theorem comesToEnd (hidle : p.batch = none) (hlimit : 1 ≤ p.options.limit) : p.ComesToEnd := by
  refine ⟨_, begin_of_idle hidle, fun as q has hrun => ?_⟩
  exact ⟨length_le_of_isWork (begin_of_idle hidle) has hrun, fun outcome =>
    exists_round (begin_of_idle hidle) hlimit has hrun outcome⟩

end Pool
end AnalysisRunner
