import Mathlib.Data.List.Forall2
import AnalysisRunner.Pool.Parallel
import AnalysisRunner.Proofs.Pool.Schedule

/-!
# Work on many inputs is answered in their order

The inputs become tasks that are named by their indices, and the answers are looked up by these
names.  So their order is that of the inputs, whatever the order in which the tasks ended.

What the answers are is said by a list that knows nothing of pools: what is told of the work on
one input after the other (`AreTold`).  Tasks run from the front of the queue, so the answers are
a front of that list, and all of it unless failures count and one of the answers is a failure
(`IsFront`).

This holds of every round of the pool, so for every number of tasks at a time and for every
order of ends (`Round.isFront`), and every round comes to its end.  The order in which tasks end
on a timeline is one of these.  Where tasks are lost, the answers are what the losses leave of
such a front (`LossyRound.exists_inOrder_eq`).
-/

namespace AnalysisRunner
namespace Pool

variable {ι ο : Type} {inputs : List ι} {work : Nat → ι → Work ο} {outcome : Nat → ι → Outcome ο}

/-- What work yields on one input after the other. -/
def yields (outcome : Nat → ι → Outcome ο) (inputs : List ι) : List (String × Outcome ο) :=
  inputs.zipIdx.map fun (input, index) => (decimal index, outcome index input)

/-- Whether answers are what is told of the work on one input after the other, where some of it
is given up after so many milliseconds. -/
def AreTold (work : Nat → ι → Work ο) (givenUp : Nat → ι → Option Nat) (inputs : List ι)
    (answers : List (String × Outcome ο)) : Prop :=
  List.Forall₂ (fun (input, index) (id, o) => id = decimal index ∧
    Outcome.Tells (decimal index) (work index input) (givenUp index input) o) inputs.zipIdx answers

/-- Whether answers are a front of all answers: the whole of it if failures do not count or
there is none, and never less without a failure among them. -/
def IsFront (stopOnError : Bool) (all given : List (String × Outcome ο)) : Prop :=
  ∃ d ≤ all.length, given = all.take d ∧
    (stopOnError = false ∨ (∀ x ∈ all, x.2.isFailure = false) → d = all.length) ∧
    (d < all.length → ∃ x ∈ given, x.2.isFailure = true)

/-! ## 1. Answers by index -/

theorem getElem?_yields (outcome : Nat → ι → Outcome ο) (inputs : List ι) (index : Nat) :
    (yields outcome inputs)[index]? =
      inputs[index]?.map fun input => (decimal index, outcome index input) := by
  simp [yields, Function.comp_def]

theorem length_yields (outcome : Nat → ι → Outcome ο) (inputs : List ι) :
    (yields outcome inputs).length = inputs.length := by
  simp [yields]

theorem getElem?_indexedTasks (inputs : List ι) (work : Nat → ι → Work ο) (index : Nat) :
    (indexedTasks inputs work)[index]? =
      inputs[index]?.map fun input => ⟨decimal index, input, work index⟩ := by
  simp [indexedTasks, Function.comp_def]

theorem length_indexedTasks (inputs : List ι) (work : Nat → ι → Work ο) :
    (indexedTasks inputs work).length = inputs.length := by
  simp [indexedTasks]

theorem nodup_indexedTasks (inputs : List ι) (work : Nat → ι → Work ο) :
    ((indexedTasks inputs work).map Task.id).Nodup := by
  have hids : (indexedTasks inputs work).map Task.id = (List.range inputs.length).map decimal := by
    rw [List.range_eq_range', ← List.zipIdx_map_snd, indexedTasks, List.map_map, List.map_map]
    rfl
  rw [hids]
  exact List.nodup_range.map decimal_injective

theorem filterMap_range_getElem? {α : Type} {xs : List α} {n : Nat} (h : xs.length ≤ n) :
    (List.range n).filterMap (xs[·]?) = xs := by
  induction xs generalizing n with
  | nil => simp
  | cons x xs ih =>
    obtain ⟨m, rfl⟩ : ∃ m, n = m + 1 := ⟨n - 1, by rw [List.length_cons] at h; omega⟩
    rw [List.range_succ_eq_map, List.filterMap_cons, List.filterMap_map]
    have hrest := ih (Nat.le_of_succ_le_succ h)
    exact congrArg (x :: ·) hrest

/-- Answers that are found under the first indices, except for some that were lost, and under
no others are what is left of a front of all answers. -/
theorem inOrder_eq_filter_take {results : Table String (Outcome ο)} {d : Nat} {lost : List String}
    (h : ∀ index, results.get? (decimal index) =
      if index < d ∧ decimal index ∉ lost then inputs[index]?.map (outcome index) else none) :
    inOrder inputs.length results =
      ((yields outcome inputs).take d).filter fun x => x.1 ∉ lost := by
  have hlength : ((yields outcome inputs).take d).length ≤ inputs.length := by
    rw [List.length_take, length_yields]
    exact Nat.min_le_right _ _
  rw [← filterMap_range_getElem? hlength, List.filter_filterMap, inOrder]
  refine List.filterMap_congr fun index _ => ?_
  rw [h, List.getElem?_take, getElem?_yields]
  by_cases hd : index < d
  · by_cases hlost : decimal index ∈ lost
    · cases inputs[index]? <;> simp [hd, hlost, Option.filter]
    · cases inputs[index]? <;> simp [hd, hlost, Option.filter]
  · simp [hd, Option.filter]

/-- What the tasks yield is what is told of the work. -/
theorem areTold_yields (inputs : List ι) (work : Nat → ι → Work ο)
    (givenUp : Nat → ι → Option Nat) :
    AreTold work givenUp inputs (yields (fun index input => Task.outcomeAfter
      (⟨decimal index, input, work index⟩ : Task ι ο) (givenUp index input)) inputs) := by
  unfold AreTold yields
  rw [List.forall₂_map_right_iff, List.forall₂_same]
  rintro ⟨input, index⟩ -
  exact ⟨rfl, Task.tells_outcomeAfter ⟨decimal index, input, work index⟩ _⟩

/-! ## 2. Rounds -/

section

variable {p : Pool ι ο} {ran : List (Task ι ο × Outcome ο)} {results : Table String (Outcome ο)}
  {front rest lost : List (Task ι ο)}

/-- The tasks that were joined are those of the first inputs that were not lost, each with the
outcome of the work on it. -/
theorem mem_ran_iff (hsplit : indexedTasks inputs work = front ++ rest)
    (hfront : (ran.map Prod.fst ++ lost).Perm front)
    (hran : ∀ j ∈ ran, ∃ index input,
      j = (⟨decimal index, input, work index⟩, outcome index input)) (index : Nat) (input : ι) :
    (⟨decimal index, input, work index⟩, outcome index input) ∈ ran ↔
      (index < front.length ∧ decimal index ∉ lost.map Task.id) ∧ inputs[index]? = some input := by
  have hat : ∀ i < front.length, front[i]? =
      inputs[i]?.map fun input => ⟨decimal i, input, work i⟩ := by
    intro i hi
    rw [← getElem?_indexedTasks, hsplit, List.getElem?_append_left hi]
  constructor
  · intro hj
    have hmem := List.mem_map_of_mem (f := Prod.fst) hj
    have hlost : decimal index ∉ lost.map Task.id := by
      have hids := nodup_indexedTasks inputs work
      rw [hsplit, List.map_append] at hids
      have happart := (hfront.map Task.id).nodup_iff.mpr (List.nodup_append.mp hids).1
      rw [List.map_append] at happart
      intro hlost
      exact (List.nodup_append.mp happart).2.2 _
        (List.mem_map_of_mem (f := Task.id) hmem) _ hlost rfl
    obtain ⟨i, hi⟩ := List.mem_iff_getElem?.mp (hfront.mem_iff.mp (List.mem_append_left lost hmem))
    obtain ⟨hlt, -⟩ := List.getElem?_eq_some_iff.mp hi
    rw [hat i hlt] at hi
    obtain ⟨input', hinput, htask⟩ := Option.map_eq_some_iff.mp hi
    obtain ⟨hid, rfl, -⟩ := Task.mk.inj htask
    obtain rfl := decimal_injective hid
    exact ⟨⟨hlt, hlost⟩, hinput⟩
  · rintro ⟨⟨hlt, hlost⟩, hinput⟩
    have htask : (⟨decimal index, input, work index⟩ : Task ι ο) ∈ front := by
      refine List.mem_of_getElem? (i := index) ?_
      rw [hat index hlt, hinput]
      rfl
    rcases List.mem_append.mp (hfront.mem_iff.mpr htask) with htask | htask
    · obtain ⟨j, hj, hsame⟩ := List.mem_map.mp htask
      obtain ⟨i, input', rfl⟩ := hran j hj
      obtain ⟨hid, rfl, -⟩ := Task.mk.inj hsame
      obtain rfl := decimal_injective hid
      exact hj
    · exact absurd (List.mem_map_of_mem (f := Task.id) htask) hlost

/-- **The answers of a round with losses are what the losses leave of a front** of what the work
yields, in order, if every task that is joined ends as the work on its input does.  Something
is missing behind that front only if failures count and there was one. -/
theorem LossyRound.exists_inOrder_eq (h : p.LossyRound ran lost results)
    (hqueue : p.queue = indexedTasks inputs work)
    (hran : ∀ j ∈ ran, ∃ index input,
      j = (⟨decimal index, input, work index⟩, outcome index input)) :
    ∃ d ≤ (yields outcome inputs).length,
      inOrder inputs.length results =
        ((yields outcome inputs).take d).filter (fun x => x.1 ∉ lost.map Task.id) ∧
      (d < (yields outcome inputs).length → p.options.stopOnError = true ∧
        (lost ≠ [] ∨ ∃ x ∈ inOrder inputs.length results, x.2.isFailure = true)) := by
  obtain ⟨front, rest, hsplit, hfront, hrest⟩ := h.queue
  rw [hqueue] at hsplit
  have hmem := mem_ran_iff hsplit hfront hran
  have hlength : front.length + rest.length = (yields outcome inputs).length := by
    rw [← List.length_append, ← hsplit, length_indexedTasks, length_yields]
  have hget : ∀ index, results.get? (decimal index) =
      if index < front.length ∧ decimal index ∉ lost.map Task.id then
        inputs[index]?.map (outcome index) else none := by
    intro index
    apply Option.ext
    intro o
    rw [h.get?_eq_some_iff (hqueue ▸ nodup_indexedTasks inputs work)]
    constructor
    · rintro ⟨j, hj, hid, rfl⟩
      obtain ⟨i, input, rfl⟩ := hran j hj
      obtain rfl := decimal_injective hid
      obtain ⟨hhere, hinput⟩ := (hmem i input).mp hj
      rw [if_pos hhere, hinput]
      rfl
    · intro ho
      split at ho
      · rename_i hhere
        obtain ⟨input, hinput, rfl⟩ := Option.map_eq_some_iff.mp ho
        exact ⟨_, (hmem index input).mpr ⟨hhere, hinput⟩, rfl, rfl⟩
      · cases ho
  have hanswers := inOrder_eq_filter_take hget
  refine ⟨front.length, by omega, hanswers, fun hlt => ?_⟩
  -- if something was left in the queue, a failure that counts was seen
  obtain ⟨hstop, ⟨j, hj, hfail⟩ | hlost⟩ := hrest (List.length_pos_iff.mp (by omega))
  · obtain ⟨i, input, rfl⟩ := hran j hj
    obtain ⟨⟨hi, hkept⟩, hinput⟩ := (hmem i input).mp hj
    refine ⟨hstop, .inr ⟨(decimal i, outcome i input), ?_, hfail⟩⟩
    rw [hanswers, List.mem_filter]
    refine ⟨List.mem_of_getElem? (i := i) ?_, decide_eq_true hkept⟩
    rw [List.getElem?_take, if_pos hi, getElem?_yields, hinput]
    rfl
  · exact ⟨hstop, .inl hlost⟩

/-- **The answers of a round are a front of what the work yields**, in order, if every task ends
as the work on its input does. -/
theorem Round.isFront (h : p.Round ran results) (hqueue : p.queue = indexedTasks inputs work)
    (hran : ∀ j ∈ ran, ∃ index input,
      j = (⟨decimal index, input, work index⟩, outcome index input)) :
    IsFront p.options.stopOnError (yields outcome inputs) (inOrder inputs.length results) := by
  obtain ⟨d, hd, hanswers, hleft⟩ := LossyRound.exists_inOrder_eq h hqueue hran
  have hall : inOrder inputs.length results = (yields outcome inputs).take d := by
    rw [hanswers, List.filter_eq_self]
    simp
  have hfailed : d < (yields outcome inputs).length → p.options.stopOnError = true ∧
      ∃ x ∈ inOrder inputs.length results, x.2.isFailure = true :=
    fun hlt => (hleft hlt).imp_right fun hseen => hseen.resolve_left fun hlost => hlost rfl
  refine ⟨d, hd, hall, fun hnone => ?_, fun hlt => (hfailed hlt).2⟩
  rcases Nat.lt_or_ge d (yields outcome inputs).length with hlt | hge
  · obtain ⟨hstop, x, hx, hfail⟩ := hfailed hlt
    rcases hnone with hoff | hnone
    · rw [hoff] at hstop
      cases hstop
    · rw [hnone x (List.mem_of_mem_take (hall ▸ hx))] at hfail
      cases hfail
  · omega

end

/-! ## 3. Answers in order -/

/-- **Work on many inputs is answered in their order.**  For all inputs and all work, for every
time limit, and whichever work is given up because of it, there is one list of what is told of
the work on one input after the other: its value, the text of its error, the text of its crash,
or that it was given up.  With it, for all numbers of tasks at a time, and whether failures count
or not:

* In whatever order the tasks end, the answers of the round are a front of that list.  The front
  is the whole if failures do not count or there is none, and otherwise there is a failure
  among the answers.
* Where some tasks are lost, the answers are what the losses leave of a front.
* Every round comes to its end.
* If the work that is given up is that of which the pauses exceed the limit, the answers on
  a timeline are such a front. -/
theorem parallel_answers_in_order (inputs : List ι) (work : Nat → ι → Work ο)
    (timeout : Option Nat) (late : Nat → ι → Bool) :
    ∃ all, AreTold work (fun index input => if late index input then timeout else none) inputs all ∧
      ∀ limit stopOnError,
        let p := (new ⟨limit, stopOnError, timeout⟩).addAll (indexedTasks inputs work)
        (∀ ran lost results, p.LossyRound ran lost results →
          (∀ j ∈ ran, ∃ index input, j.1 = ⟨decimal index, input, work index⟩ ∧
            j.2 = j.1.outcomeAfter (if late index input then timeout else none)) →
          (lost = [] → IsFront stopOnError all (inOrder inputs.length results)) ∧
          ∃ d ≤ all.length, inOrder inputs.length results =
            (all.take d).filter fun x => x.1 ∉ lost.map Task.id) ∧
        p.ComesToEnd ∧
        ((∀ index input, late index input = timeout.any (· < (work index input).pauses.sum)) →
          IsFront stopOnError all (parallel inputs work ⟨limit, stopOnError, timeout⟩).1) := by
  refine ⟨_, areTold_yields inputs work _, fun limit stopOnError => ?_⟩
  obtain ⟨hqueue, hbatch, hoptions⟩ :=
    addAll_new ⟨limit, stopOnError, timeout⟩ (indexedTasks inputs work)
  intro p
  have hlimit : 1 ≤ p.options.limit := by
    rw [hoptions]
    exact Nat.le_max_right _ _
  have hstop : p.options.stopOnError = stopOnError := by rw [hoptions]
  refine ⟨fun ran lost results h hran => ?_, comesToEnd hbatch hlimit, fun hlate => ?_⟩
  · have hown : ∀ j ∈ ran, ∃ index input, j = (⟨decimal index, input, work index⟩,
        (⟨decimal index, input, work index⟩ : Task ι ο).outcomeAfter
          (if late index input then timeout else none)) := by
      intro j hj
      obtain ⟨index, input, htask, ho⟩ := hran j hj
      exact ⟨index, input, Prod.ext htask (ho.trans (by rw [htask]))⟩
    refine ⟨?_, ?_⟩
    · rintro rfl
      exact hstop ▸ Round.isFront h hqueue hown
    · obtain ⟨d, hd, hanswers, -⟩ := h.exists_inOrder_eq hqueue hown
      exact ⟨d, hd, hanswers⟩
  · obtain ⟨ran, results, t, hround, hown, hexecute⟩ := Timeline.execute_eq hbatch hlimit 0
    have hanswers : (parallel inputs work ⟨limit, stopOnError, timeout⟩).1 =
        inOrder inputs.length results := by
      unfold parallel
      dsimp only
      rw [hexecute]
    rw [hanswers, ← hstop]
    refine hround.isFront hqueue fun j hj => ?_
    obtain ⟨index, hindex⟩ := List.mem_iff_getElem?.mp (hqueue ▸ hround.mem_queue hj)
    rw [getElem?_indexedTasks] at hindex
    obtain ⟨input, -, htask⟩ := Option.map_eq_some_iff.mp hindex
    refine ⟨index, input, Prod.ext htask.symm ?_⟩
    rw [hown j hj, ← htask, hoptions, Task.outcome_eq, hlate]
    rfl

/-- Two at a time, and failures count: the work on the second input fails first, with a chain of
causes, and the work on the first is given up after ten milliseconds.  So the third input is never
taken up. -/
theorem parallel_answers_in_order_failing :
    let work : Nat → Nat → Work Nat := fun index input =>
      ⟨[input], if index = 1 then .error ["outer", "inner"] else .value input⟩
    let late : Nat → Nat → Bool := fun _ input => 10 < input
    let p := (new ⟨2, true, some 10⟩).addAll (indexedTasks [50, 3, 4] work)
    ∃ ran results, p.Round ran results ∧ ran.map (fun j => j.1.id) = ["1", "0"] ∧
      inOrder 3 results =
        [("0", .failure "Task 0 timed out after 10ms"), ("1", .failure "outer: inner")] ∧
      ∃ all, AreTold work (fun index input => if late index input then some 10 else none)
        [50, 3, 4] all ∧ IsFront true all (inOrder 3 results) := by
  intro work late p
  have hround : ∃ ran results, p.Round ran results ∧
      ran = [(⟨decimal 1, 3, work 1⟩, .failure "outer: inner"),
        (⟨decimal 0, 50, work 0⟩, .timedOut (decimal 0) 10)] ∧
      inOrder 3 results =
        [("0", .failure "Task 0 timed out after 10ms"), ("1", .failure "outer: inner")] :=
    ⟨_, _, ⟨_, [.dispatch, .dispatch, .join 1 (.failure "outer: inner") 3000000,
      .join 0 (.timedOut (decimal 0) 10) 10000000], _, _, rfl, by simp [PoolAction.isWork],
      rfl, rfl, rfl, rfl⟩, rfl, by decide⟩
  obtain ⟨ran, results, hround, rfl, hanswers⟩ := hround
  obtain ⟨all, htold, hall⟩ := parallel_answers_in_order [50, 3, 4] work (some 10) late
  refine ⟨_, results, hround, by decide, hanswers, all, htold,
    ((hall 2 true).1 _ [] results hround fun j hj => ?_).1 rfl⟩
  rcases List.mem_cons.mp hj with rfl | hj
  · exact ⟨1, 3, rfl, by decide⟩
  · rw [List.mem_singleton.mp hj]
    exact ⟨0, 50, rfl, by decide⟩

end Pool
end AnalysisRunner
