import AnalysisRunner.Proofs.Pool.Round
import AnalysisRunner.Pool.Timeline

/-!
# What starts comes from the queue

A timeline writes down which tasks start.  Every one of them was dispatched before, so it was in
the queue of the pool when the batch began (`mem_queue_of_started`).  The invariant is about all
tasks at once: whatever holds of the tasks in the queue goes on to hold of those in the queue, of
those in flight and of those that have started (`Timeline.Only`), because a dispatch only moves a
task and nothing is ever added.
-/

namespace AnalysisRunner

variable {ι ο : Type} {P : Task ι ο → Prop}

/-! ## 1. The tasks of a pool -/

/-- Whether all tasks of a pool, queued or in flight, satisfy a condition. -/
structure Pool.Only (P : Task ι ο → Prop) (p : Pool ι ο) : Prop where
  queue : ∀ task ∈ p.queue, P task
  flights : ∀ f ∈ p.flights, P f.task

namespace Pool.Only

variable {p q : Pool ι ο}

theorem dispatch? (h : p.Only P) (hq : p.dispatch? = some q) : q.Only P := by
  obtain ⟨b, task, rest, hb, hqueue, -, -, rfl⟩ := dispatch?_eq_some_iff.mp hq
  have hflights := h.flights
  rw [flights_of_batch hb] at hflights
  refine ⟨fun t ht => h.queue t (by rw [hqueue]; exact List.mem_cons_of_mem _ ht), ?_⟩
  intro f hf
  rw [flights_of_batch rfl] at hf
  rcases List.mem_append.mp hf with hf | hf
  · exact hflights f hf
  · rw [List.mem_singleton.mp hf]
    exact h.queue task (by rw [hqueue]; exact List.mem_cons_self ..)

theorem dispatchUpTo (h : p.Only P) (n : Nat) : (Pool.dispatchUpTo n p).Only P := by
  induction n generalizing p with
  | zero => exact h
  | succ n ih =>
    rw [Pool.dispatchUpTo]
    cases hq : p.dispatch? with
    | none => exact h
    | some q => exact ih (h.dispatch? hq)

theorem join? (h : p.Only P) {number took : Nat} {o : Outcome ο}
    (hq : p.join? number o took = some q) : q.Only P := by
  obtain ⟨b, f, hb, -, rfl⟩ := join?_eq_some_iff.mp hq
  have hflights := h.flights
  rw [flights_of_batch hb] at hflights
  refine ⟨h.queue, fun g hg => ?_⟩
  rw [flights_of_batch rfl] at hg
  exact hflights g (List.mem_of_mem_filter hg)

theorem finish? (h : p.Only P) {results : Table String (Outcome ο)}
    (hq : p.finish? = some (results, q)) : q.Only P := by
  obtain ⟨b, -, -, -, -, rfl⟩ := finish?_eq_some_iff.mp hq
  refine ⟨h.queue, fun f hf => ?_⟩
  rw [flights_of_idle rfl] at hf
  cases hf

theorem begin (h : ∀ task ∈ p.queue, P task) (hq : p.begin = .ok q) : q.Only P := by
  obtain ⟨-, rfl⟩ := begin_eq_ok_iff.mp hq
  refine ⟨h, fun f hf => ?_⟩
  rw [flights_of_batch rfl] at hf
  cases hf

end Pool.Only

/-! ## 2. The tasks of a timeline -/

namespace Timeline

/-- Whether all tasks of a timeline, queued, in flight or started, satisfy a condition. -/
structure Only (P : Task ι ο → Prop) (t : Timeline ι ο) : Prop where
  pool : t.pool.Only P
  started : ∀ task, .started task ∈ t.journal → P task

namespace Only

variable {t : Timeline ι ο}

theorem ending (h : t.Only P) (f : Flight ι ο) (o : Outcome ο) : (t.ending f o).Only P := by
  refine ⟨h.pool, fun task htask => ?_⟩
  rcases List.mem_cons.mp htask with hended | htask
  · cases hended
  · exact h.started task htask

theorem proceed (h : t.Only P) (f : Flight ι ο) (pauses : List Nat) (deadline : Option Nat) :
    (t.proceed f pauses deadline).Only P := by
  unfold Timeline.proceed
  cases pauses with
  | nil => exact h.ending f _
  | cons pause later =>
    dsimp only
    split
    · exact h.ending f _
    · exact ⟨h.pool, h.started⟩

theorem setLimit (h : t.Only P) (number : Nat) (deadline : Option Nat) :
    (t.setLimit number deadline).Only P := by
  unfold Timeline.setLimit
  cases deadline with
  | none => exact h
  | some due =>
    dsimp only
    split
    · exact ⟨h.pool, h.started⟩
    · exact h

theorem start (h : t.Only P) {f : Flight ι ο} (hf : P f.task) : (t.start f).Only P := by
  have hlaunch : (t.launch f).Only P := by
    refine ⟨h.pool, fun task htask => ?_⟩
    rcases List.mem_cons.mp htask with hstarted | htask
    · rw [PoolEvent.started.inj hstarted]
      exact hf
    · exact h.started task htask
  exact (hlaunch.proceed f _ _).setLimit _ _

theorem foldl_start (h : t.Only P) {fs : List (Flight ι ο)} (hfs : ∀ f ∈ fs, P f.task) :
    (fs.foldl Timeline.start t).Only P := by
  induction fs generalizing t with
  | nil => exact h
  | cons f fs ih =>
    exact ih (h.start (hfs f (List.mem_cons_self ..))) fun g hg => hfs g (List.mem_cons_of_mem _ hg)

theorem resume (h : t.Only P) (number : Nat) : (t.resume number).Only P := by
  unfold Timeline.resume
  split
  · exact h
  · split
    · exact h.proceed _ _ _
    · exact h.ending _ _

theorem wakeAt (h : t.Only P) (instant : Nat) : (t.wakeAt instant).Only P := by
  have hfold : ∀ (numbers : List Nat) (t : Timeline ι ο), t.Only P →
      (numbers.foldl Timeline.resume t).Only P := by
    intro numbers
    induction numbers with
    | nil => exact fun t h => h
    | cons number numbers ih => exact fun t h => ih _ (h.resume number)
  exact hfold _ _ ⟨h.pool, h.started⟩

theorem join (h : t.Only P) (number : Nat) (o : Outcome ο) (rest : List (Nat × Outcome ο)) :
    (t.join number o rest).Only P := by
  unfold Timeline.join
  dsimp only
  cases hq : t.pool.join? number o (t.elapsed number) with
  | none => exact ⟨h.pool, h.started⟩
  | some q =>
    refine ⟨(h.pool.join? hq).dispatchUpTo _, fun task htask => ?_⟩
    rcases List.mem_append.mp htask with hjoined | htask
    · obtain ⟨b, -, hevent⟩ := Option.map_eq_some_iff.mp (Option.mem_toList.mp hjoined)
      cases hevent
    · exact h.started task htask

theorem of_mem_waiting (h : t.Only P) {f : Flight ι ο} (hf : f ∈ t.waiting) : P f.task := by
  unfold Timeline.waiting at hf
  cases hb : t.pool.batch with
  | none =>
    rw [hb] at hf
    cases hf
  | some b =>
    rw [hb] at hf
    refine h.pool.flights f ?_
    rw [Pool.flights_of_batch hb]
    exact List.mem_of_mem_filter hf

/-- A stretch of a timeline adds no task. -/
theorem runFor (h : t.Only P) (fuel : Nat) (horizon : Option Nat) :
    (Timeline.runFor fuel horizon t).1.Only P := by
  induction fuel generalizing t with
  | zero => exact h
  | succ fuel ih =>
    rw [Timeline.runFor]
    cases hended : t.ended with
    | cons x rest => exact ih (h.join x.1 x.2 rest)
    | nil =>
      dsimp only
      cases hfinish : t.pool.finish? with
      | some x => exact ⟨h.pool.finish? hfinish, h.started⟩
      | none =>
        dsimp only
        cases hwaiting : t.waiting with
        | cons f fs =>
          refine ih (h.foldl_start fun g hg => h.of_mem_waiting ?_)
          rw [hwaiting]
          exact hg
        | nil =>
          dsimp only
          cases t.nextAlarm? with
          | none => exact h
          | some instant =>
            dsimp only
            split
            · exact h
            · exact ih (h.wakeAt instant)

end Only

/-- **Every task that starts was in the queue.** -/
theorem mem_queue_of_started {p : Pool ι ο} {now : Nat} {results : Table String (Outcome ο)}
    {t : Timeline ι ο} (h : (ofPool p now).execute = .ok (results, t)) {task : Task ι ο}
    (htask : .started task ∈ t.events) : task ∈ p.queue := by
  cases hbegin : p.begin with
  | error fault =>
    rw [execute, begin, show (ofPool p now).pool.begin = _ from hbegin] at h
    cases h
  | ok q =>
    have honly : Only (· ∈ p.queue) { ofPool p now with pool := q.fill } := by
      refine ⟨(Pool.Only.begin (fun _ h => h) hbegin).dispatchUpTo _, fun task htask => ?_⟩
      cases htask
    have hbegun : (ofPool p now).begin = .ok { ofPool p now with pool := q.fill } := by
      show Except.map _ p.begin = _
      rw [hbegin]
      rfl
    have hrun : (runOut { ofPool p now with pool := q.fill }).1.Only (· ∈ p.queue) :=
      honly.runFor _ none
    rw [execute, hbegun, Except.map] at h
    cases hout : runOut { ofPool p now with pool := q.fill } with
    | mk last stop =>
      rw [hout] at h hrun
      have hlast : last = t := by
        cases stop <;> exact (Prod.mk.inj (Except.ok.inj h)).2
      exact hrun.started task (List.mem_reverse.mp (hlast ▸ htask))

end Timeline
end AnalysisRunner
