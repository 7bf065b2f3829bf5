import AnalysisRunner.Proofs.Pool.Calls

/-!
# The discipline of a call

A call runs a batch step by step, while others add tasks, stop the pool, set listeners and are
refused (`PoolMove.isMeanwhile`).  Whatever they do and whenever, and in whatever order and way
the tasks end: tasks are taken in the order of the queue, next to nothing is taken after a stop
and nothing after a failure that counts, a batch that was not halted empties the queue up to what
came too late, and the results and the reports to the listener are about exactly the tasks that
were taken and not lost.

A stop counts from the step on by which the call forgets earlier ones.  It comes too late for
one task if the call has just looked whether it may dispatch.  A task comes too late if the call
has found the queue empty and is about to go.

`Since p ts ss extra c b` says what a call has done since it began on the pool `p`: it has taken
the tasks `ts` and settled the tasks `ss`, while the tasks `extra` were added.  Every move keeps
it going (`since_step?`).
-/

namespace AnalysisRunner

/-- Whether a move may come while a call runs its batch: the queue is not emptied from outside,
and the call is neither given up nor over. -/
def PoolMove.isMeanwhile {ι ο : Type} : PoolMove ι ο → Bool
  | .clearQueue | .cancel | .leave => false
  | _ => true

/-- The task that a move adds. -/
def PoolMove.added? {ι ο : Type} : PoolMove ι ο → Option (Task ι ο)
  | .add task => some task
  | _ => none

/-- The tasks that moves add, in order. -/
def PoolMove.additions {ι ο : Type} (ms : List (PoolMove ι ο)) : List (Task ι ο) :=
  ms.filterMap PoolMove.added?

theorem PoolMove.additions_cons {ι ο : Type} (m : PoolMove ι ο) (ms : List (PoolMove ι ο)) :
    additions (m :: ms) = m.added?.toList ++ additions ms := by
  rw [additions, List.filterMap_cons]
  cases m.added? <;> rfl

theorem PoolMove.additions_concat {ι ο : Type} (ms : List (PoolMove ι ο)) (m : PoolMove ι ο) :
    additions (ms ++ [m]) = additions ms ++ m.added?.toList := by
  rw [additions, List.filterMap_append]
  exact congrArg _ ((additions_cons m []).trans (List.append_nil _))

/-- What the listener is told about joins, the first of which follows after `done`
others. -/
def Progress.series {ι ο : Type} (done planned : Nat) :
    List (Task ι ο × Outcome ο) → List Progress
  | [] => []
  | j :: rest => ⟨done + 1, planned, j.1.id⟩ :: series (done + 1) planned rest

theorem Progress.series_append {ι ο : Type} (done planned : Nat)
    (js ks : List (Task ι ο × Outcome ο)) :
    Progress.series done planned (js ++ ks) =
      Progress.series done planned js ++ Progress.series (done + js.length) planned ks := by
  induction js generalizing done with
  | nil => rfl
  | cons j js ih =>
    rw [List.cons_append, Progress.series, ih, Progress.series, List.cons_append, List.length_cons]
    congr 3
    omega

namespace Calls

variable {ι ο : Type} {c c' : Calls ι ο} {m : PoolMove ι ο} {ms : List (PoolMove ι ο)}
  {limit : Nat} {p : Pool ι ο} {ts extra : List (Task ι ο)} {ss : List (Task ι ο × Landing ο)}
  {b : Batch ι ο}

/-! ## 1. What happens in a call -/

/-- The task that a move takes from the queue. -/
def takenBy (c : Calls ι ο) : PoolMove ι ο → Option (Task ι ο)
  | .advance =>
    match c.stage with
    | .allowed => c.pool.queue.head?
    | _ => none
  | _ => none

/-- The task that a move settles, and how it ended. -/
def settledBy (c : Calls ι ο) : PoolMove ι ο → Option (Task ι ο × Landing ο)
  | .advance =>
    match c.stage with
    | .settling flight landing => some (flight.task, landing)
    | _ => none
  | _ => none

/-- The tasks that are taken from the queue, in order. -/
def taken (c : Calls ι ο) (ms : List (PoolMove ι ο)) : List (Task ι ο) :=
  Machine.gather step? takenBy c ms

/-- The tasks that are settled, in order. -/
def settled (c : Calls ι ο) (ms : List (PoolMove ι ο)) : List (Task ι ο × Landing ο) :=
  Machine.gather step? settledBy c ms

/-- The settled tasks that were not lost, with their outcomes. -/
def joined (ss : List (Task ι ο × Landing ο)) : List (Task ι ο × Outcome ο) :=
  ss.filterMap fun s => s.2.outcome?.map fun o => (s.1, o)

/-! ## 2. Since a call began -/

/-- What a call is that has taken and settled these tasks, while those were added. -/
structure Since (p : Pool ι ο) (ts : List (Task ι ο)) (ss : List (Task ι ο × Landing ο))
    (extra : List (Task ι ο)) (c : Calls ι ο) (b : Batch ι ο) : Prop where
  running : c.stage ≠ .idle ∧ c.stage ≠ .leaving
  batch : c.pool.batch = some b
  options : c.pool.options = p.options
  queue : ts ++ c.pool.queue = p.queue ++ extra
  tasks : (ss.map Prod.fst ++ (c.stage.held ++ (b.flights.map Flight.task ++ c.stage.landed))).Perm
    ts
  opening : c.stage.isOpening = true → ts = []
  finished : b.finished = (joined ss).length
  failureSeen : b.failureSeen = ss.any fun s => s.2.isFailure
  results : b.results = (joined ss).foldl (fun t j => t.insert j.1.id j.2) .empty
  told : b.told =
    if b.listener.isSome then Progress.series 0 b.planned (joined ss) else []

namespace Since

theorem nothing_settled (h : Since p ts ss extra c b) (hopening : c.stage.isOpening = true) :
    ss = [] := by
  have hlength := h.tasks.length_eq
  rw [h.opening hopening, List.length_append, List.length_map, List.length_nil] at hlength
  exact List.length_eq_zero_iff.mp (by omega)

/-- A move by which nothing is taken, settled or added. -/
theorem quiet (h : Since p ts ss extra c b) {q : Pool ι ο} {stage : Stage ι ο} (n : Nat)
    (hrunning : stage ≠ .idle ∧ stage ≠ .leaving) (hbatch : q.batch = some b)
    (hoptions : q.options = c.pool.options) (hqueue : q.queue = c.pool.queue)
    (hheld : stage.held = c.stage.held) (hlanded : stage.landed = c.stage.landed)
    (hopening : stage.isOpening = true → c.stage.isOpening = true) :
    Since p ts ss extra ⟨q, stage, n⟩ b where
  running := hrunning
  batch := hbatch
  options := hoptions.trans h.options
  queue := by
    rw [hqueue]
    exact h.queue
  tasks := by
    rw [hheld, hlanded]
    exact h.tasks
  opening := fun hstage => h.opening (hopening hstage)
  finished := h.finished
  failureSeen := h.failureSeen
  results := h.results
  told := h.told

/-- Before the first task is taken, the batch may be told anything about the others. -/
theorem prepare (h : Since p ts ss extra c b) (hopening : c.stage.isOpening = true)
    {q : Pool ι ο} {b' : Batch ι ο} {stage : Stage ι ο}
    (hrunning : stage ≠ .idle ∧ stage ≠ .leaving)
    (hbatch : q.batch = some b') (hoptions : q.options = c.pool.options)
    (hqueue : q.queue = c.pool.queue) (hheld : stage.held = c.stage.held)
    (hlanded : stage.landed = c.stage.landed)
    (hsame : b' = { b with planned := b'.planned, listener := b'.listener }) :
    Since p ts ss extra { c with pool := q, stage } b' where
  running := hrunning
  batch := hbatch
  options := hoptions.trans h.options
  queue := by
    rw [hqueue]
    exact h.queue
  tasks := by
    rw [hheld, hlanded, hsame]
    exact h.tasks
  opening := fun _ => h.opening hopening
  finished := by
    rw [hsame]
    exact h.finished
  failureSeen := by
    rw [hsame]
    exact h.failureSeen
  results := by
    rw [hsame]
    exact h.results
  told := by
    have htold := h.told
    rw [h.nothing_settled hopening] at htold ⊢
    rw [hsame]
    show b.told = _
    rw [htold]
    simp [joined, Progress.series]

theorem add (h : Since p ts ss extra c b) (task : Task ι ο) :
    Since p ts ss (extra ++ [task]) { c with pool := c.pool.add task } b :=
  { h with
    queue := by
      show ts ++ (c.pool.queue ++ [task]) = p.queue ++ (extra ++ [task])
      rw [← List.append_assoc, h.queue, List.append_assoc] }

theorem take (h : Since p ts ss extra c b) {task : Task ι ο} {rest : List (Task ι ο)}
    (hstage : c.stage = .allowed) (hqueue : c.pool.queue = task :: rest) :
    Since p (ts ++ [task]) ss extra
      { c with pool := { c.pool with queue := rest }, stage := .holding task } b where
  running := ⟨by simp, by simp⟩
  batch := h.batch
  options := h.options
  queue := by
    rw [← h.queue, hqueue, List.append_assoc]
    rfl
  tasks := by
    have htasks := h.tasks
    rw [hstage] at htasks
    refine List.Perm.trans ?_ (htasks.append_right [task])
    rw [List.append_assoc]
    exact List.Perm.append_left _ List.perm_append_comm
  opening := by
    intro hopening
    cases hopening
  finished := h.finished
  failureSeen := h.failureSeen
  results := h.results
  told := h.told

theorem launch (h : Since p ts ss extra c b) {task : Task ι ο} (hstage : c.stage = .holding task) :
    Since p ts ss extra { c with pool := c.pool.launch task, stage := .deciding }
      { b with
        flights := b.flights ++ [⟨b.dispatched, task⟩], dispatched := b.dispatched + 1 } := by
  have htasks := h.tasks
  rw [hstage] at htasks
  rw [Pool.launch_of_batch h.batch]
  refine { h with running := ⟨by simp, by simp⟩, batch := rfl, tasks := ?_, opening := ?_ }
  · refine List.Perm.trans (List.Perm.append_left _ ?_) htasks
    show ((b.flights ++ [_]).map Flight.task ++ []).Perm
      ([task] ++ (b.flights.map Flight.task ++ []))
    rw [List.append_nil, List.append_nil, List.map_append]
    exact List.perm_append_comm
  · intro hopening
    cases hopening

/-- A task has landed: nothing of it is settled yet. -/
theorem land (h : Since p ts ss extra c b) (hsound : b.Sound limit) {why : Pause} {number : Nat}
    {f : Flight ι ο} (landing : Landing ο) (hstage : c.stage = .waiting why)
    (hf : b.flights.find? (fun f => f.number = number) = some f) :
    Since p ts ss extra
      { c with
        pool := { c.pool with
          counts := c.pool.counts.landed
          batch := some { b with flights := b.flights.filter fun f => f.number ≠ number } }
        stage := .settling f landing }
      { b with flights := b.flights.filter fun f => f.number ≠ number } := by
  have htasks := h.tasks
  rw [hstage] at htasks
  refine { h with running := ⟨by simp, by simp⟩, batch := rfl, tasks := ?_, opening := ?_ }
  · refine List.Perm.trans (List.Perm.append_left _ ?_) htasks
    show ((b.flights.filter fun f => f.number ≠ number).map Flight.task ++ [f.task]).Perm
      (b.flights.map Flight.task ++ [])
    rw [List.append_nil]
    exact List.perm_append_comm.trans ((hsound.perm_find hf).map Flight.task)
  · intro hopening
    cases hopening

/-- A task that has landed is settled. -/
theorem settle (h : Since p ts ss extra c b) {f : Flight ι ο} {landing : Landing ο} {q : Pool ι ο}
    {b' : Batch ι ο} (hstage : c.stage = .settling f landing) (hbatch : q.batch = some b')
    (hoptions : q.options = c.pool.options) (hqueue : q.queue = c.pool.queue)
    (hflights : b'.flights = b.flights)
    (hfinished : b'.finished = b.finished + (joined [(f.task, landing)]).length)
    (hseen : b'.failureSeen = (b.failureSeen || landing.isFailure))
    (hresults : b'.results = (joined [(f.task, landing)]).foldl (fun t j => t.insert j.1.id j.2)
      b.results)
    (hlistener : b'.listener = b.listener) (hplanned : b'.planned = b.planned)
    (htold : b'.told = if b.listener.isSome then
      b.told ++ Progress.series b.finished b.planned (joined [(f.task, landing)]) else b.told) :
    Since p ts (ss ++ [(f.task, landing)]) extra { c with pool := q, stage := .deciding } b' := by
  have hjoined : joined (ss ++ [(f.task, landing)]) = joined ss ++ joined [(f.task, landing)] :=
    List.filterMap_append
  have htasks := h.tasks
  rw [hstage] at htasks
  constructor
  · exact ⟨by simp, by simp⟩
  · exact hbatch
  · exact hoptions.trans h.options
  · rw [hqueue]
    exact h.queue
  · refine List.Perm.trans ?_ htasks
    show ((ss ++ [(f.task, landing)]).map Prod.fst ++ (b'.flights.map Flight.task ++ [])).Perm
      (ss.map Prod.fst ++ (b.flights.map Flight.task ++ [f.task]))
    rw [hflights, List.append_nil, List.map_append, List.append_assoc]
    exact List.perm_append_comm.append_left _
  · intro hopening
    cases hopening
  · rw [hfinished, h.finished, hjoined, List.length_append]
  · rw [hseen, h.failureSeen, List.any_append, List.any_cons, List.any_nil, Bool.or_false]
  · rw [hresults, h.results, hjoined, List.foldl_append]
  · rw [htold, hlistener, hplanned, h.told, hjoined, Progress.series_append, h.finished]
    cases b.listener.isSome
    · rfl
    · rw [Nat.zero_add]
      rfl

end Since

/-- **Every move of a call goes on from what it has done.** -/
theorem since_step? (h : Since p ts ss extra c b) (hsound : c.Sound limit)
    (hm : m.isMeanwhile = true) (hstep : c.step? m = some c') :
    ∃ b', Since p (ts ++ (c.takenBy m).toList) (ss ++ (c.settledBy m).toList)
      (extra ++ m.added?.toList) c' b' := by
  -- most moves take, settle and add nothing
  have hnone : c.takenBy m = none → c.settledBy m = none → m.added? = none →
      (∃ b', Since p ts ss extra c' b') → ∃ b', Since p (ts ++ (c.takenBy m).toList)
        (ss ++ (c.settledBy m).toList) (extra ++ m.added?.toList) c' b' := by
    intro htaken hsettled hadded hsince
    rw [htaken, hsettled, hadded, Option.toList_none, Option.toList_none, List.append_nil,
      List.append_nil, List.append_nil]
    exact hsince
  cases step_of_step? hstep with
  | add task =>
    refine ⟨b, ?_⟩
    show Since p (ts ++ []) (ss ++ []) (extra ++ [task]) _ b
    rw [List.append_nil, List.append_nil]
    exact h.add task
  | listen listener =>
    exact hnone rfl rfl rfl ⟨b, h.quiet c.clearing h.running h.batch rfl rfl rfl rfl id⟩
  | stop => exact hnone rfl rfl rfl ⟨b, h.quiet c.clearing h.running h.batch rfl rfl rfl rfl id⟩
  | clearQueue => cases hm
  | clearCounts => exact hnone rfl rfl rfl ⟨b, h.quiet _ h.running h.batch rfl rfl rfl rfl id⟩
  | enter hidle => cases hidle.symm.trans h.batch
  | refuse hb => exact hnone rfl rfl rfl ⟨b, h⟩
  | clearStop hstage =>
    refine hnone (by simp only [takenBy, hstage]) (by simp only [settledBy, hstage]) rfl
      ⟨b, h.quiet c.clearing ⟨by simp, by simp⟩ h.batch rfl rfl ?_ ?_ fun _ => ?_⟩
    · rw [hstage]
      rfl
    · rw [hstage]
      rfl
    · rw [hstage]
      rfl
  | plan hstage =>
    refine hnone (by simp only [takenBy, hstage]) (by simp only [settledBy, hstage]) rfl
      ?_
    rw [Pool.plan_of_batch h.batch]
    exact ⟨_, h.prepare (by rw [hstage]; rfl) ⟨by simp, by simp⟩ rfl rfl rfl (by rw [hstage]; rfl)
      (by rw [hstage]; rfl) rfl⟩
  | hear hstage =>
    refine hnone (by simp only [takenBy, hstage]) (by simp only [settledBy, hstage]) rfl
      ?_
    rw [Pool.hear_of_batch h.batch]
    exact ⟨_, h.prepare (by rw [hstage]; rfl) ⟨by simp, by simp⟩ rfl rfl rfl (by rw [hstage]; rfl)
      (by rw [hstage]; rfl) rfl⟩
  | allow hstage hb hroom hgo =>
    exact hnone (by simp only [takenBy, hstage]) (by simp only [settledBy, hstage]) rfl
      ⟨b, h.quiet c.clearing ⟨by simp, by simp⟩ h.batch rfl rfl (by rw [hstage]; rfl)
        (by rw [hstage]; rfl) fun hopening => by cases hopening⟩
  | pause hstage hb hwhy =>
    exact hnone (by simp only [takenBy, hstage]) (by simp only [settledBy, hstage]) rfl
      ⟨b, h.quiet c.clearing ⟨by simp, by simp⟩ h.batch rfl rfl (by rw [hstage]; rfl)
        (by rw [hstage]; rfl) fun hopening => by cases hopening⟩
  | @take task rest hstage hqueue =>
    refine ⟨b, ?_⟩
    have htaken : (c.takenBy .advance).toList = [task] := by
      simp only [takenBy, hstage, hqueue, List.head?_cons, Option.toList_some]
    have hsettled : (c.settledBy .advance).toList = [] := by
      simp only [settledBy, hstage, Option.toList_none]
    rw [htaken, hsettled, List.append_nil]
    show Since p (ts ++ [task]) ss (extra ++ []) _ b
    rw [List.append_nil]
    exact h.take hstage hqueue
  | runDry hstage hqueue =>
    exact hnone (by simp only [takenBy, hstage, hqueue, List.head?_nil])
      (by simp only [settledBy, hstage]) rfl
      ⟨b, h.quiet c.clearing ⟨by simp, by simp⟩ h.batch rfl rfl (by rw [hstage]; rfl)
        (by rw [hstage]; rfl) fun hopening => by cases hopening⟩
  | launch hstage =>
    exact hnone (by simp only [takenBy, hstage]) (by simp only [settledBy, hstage]) rfl
      ⟨_, h.launch hstage⟩
  | @record f o took hstage =>
    have hsettled : (c.settledBy .advance).toList = [(f.task, .joined o took)] := by
      simp only [settledBy, hstage, Option.toList_some]
    have htaken : (c.takenBy .advance).toList = [] := by
      simp only [takenBy, hstage, Option.toList_none]
    rw [htaken, hsettled, List.append_nil, Pool.record_of_batch h.batch]
    show ∃ b', Since p ts _ (extra ++ []) _ b'
    rw [List.append_nil]
    exact ⟨_, h.settle hstage rfl rfl rfl rfl rfl rfl rfl rfl rfl rfl⟩
  | @recordLoss f hstage =>
    have hsettled : (c.settledBy .advance).toList = [(f.task, .lost)] := by
      simp only [settledBy, hstage, Option.toList_some]
    have htaken : (c.takenBy .advance).toList = [] := by
      simp only [takenBy, hstage, Option.toList_none]
    rw [htaken, hsettled, List.append_nil, Pool.recordLoss_of_batch h.batch]
    show ∃ b', Since p ts _ (extra ++ []) _ b'
    rw [List.append_nil]
    refine ⟨_, h.settle hstage rfl rfl rfl rfl rfl (Bool.or_true _).symm rfl rfl rfl ?_⟩
    show b.told = if b.listener.isSome then b.told ++ [] else b.told
    rw [List.append_nil, ite_self]
  | @land why number landing b₀ f hstage hb hf =>
    obtain rfl := Option.some.inj (h.batch.symm.trans hb)
    exact hnone rfl rfl rfl ⟨_, h.land (hsound.batch b hb).1 landing hstage hf⟩
  | cancel hstage => cases hm
  | leave hwhen => cases hm

/-- **Every run of a call goes on from what it has done.** -/
theorem since_run? (h : Since p ts ss extra c b) (hsound : c.Sound limit)
    (hms : ∀ m ∈ ms, m.isMeanwhile = true) (hrun : c.run? ms = some c') :
    ∃ b', Since p (ts ++ c.taken ms) (ss ++ c.settled ms)
      (extra ++ PoolMove.additions ms) c' b' := by
  induction ms generalizing c ts ss extra b with
  | nil =>
    obtain rfl := Option.some.inj hrun
    refine ⟨b, ?_⟩
    show Since p (ts ++ []) (ss ++ []) (extra ++ []) c b
    rwa [List.append_nil, List.append_nil, List.append_nil]
  | cons m ms ih =>
    obtain ⟨x, hx, hrest⟩ := Machine.run?_cons_eq_some_iff.mp hrun
    obtain ⟨b₁, hsince⟩ := since_step? h hsound (hms m (List.mem_cons_self ..)) hx
    rw [taken, settled, Machine.gather_cons hx, Machine.gather_cons hx, PoolMove.additions_cons,
      ← List.append_assoc, ← List.append_assoc, ← List.append_assoc]
    exact ih hsince (sound_step? hsound hx) (fun a ha => hms a (List.mem_cons_of_mem m ha)) hrest

/-- The beginning of a call. -/
theorem since_enter {c₀ : Calls ι ο} (hsound : c.Sound limit) (hidle : c.stage = .idle)
    (henter : c.step? .enter = some c₀) :
    Since c.pool [] [] [] c₀ .blank ∧ c₀.stage = .entered := by
  cases step_of_step? henter with
  | enter hb =>
    refine ⟨⟨⟨by simp, by simp⟩, rfl, rfl, ?_, List.Perm.refl _, fun _ => rfl, rfl, rfl, rfl, rfl⟩,
      rfl⟩
    rw [List.append_nil]
    rfl
  | refuse hb => cases (hsound.idle_iff.mp hidle).symm.trans hb

/-! ## 3. Halting -/

/-- What a move can do after a call is halted: it can take the one task that it was allowed to. -/
theorem halted_step? (hb : c.pool.batch = some b) (hcleared : c.stage.hasCleared = true)
    (hhalt : c.pool.isHalted b = true) (hm : m.isMeanwhile = true) (hstep : c.step? m = some c') :
    ∃ b', c'.pool.batch = some b' ∧ c'.stage.hasCleared = true ∧ c'.pool.isHalted b' = true ∧
      (c.takenBy m).toList.length + c'.stage.isAllowed.toNat ≤ c.stage.isAllowed.toNat := by
  have hnothing : ∀ n : Nat, ([] : List (Task ι ο)).length + (false : Bool).toNat ≤ n :=
    fun n => Nat.zero_le n
  cases step_of_step? hstep with
  | add task | listen listener | clearCounts hn =>
    exact ⟨b, hb, hcleared, hhalt, Nat.le_of_eq (Nat.zero_add _)⟩
  | stop => exact ⟨b, hb, hcleared, rfl, Nat.le_of_eq (Nat.zero_add _)⟩
  | clearQueue => cases hm
  | enter hidle => cases hidle.symm.trans hb
  | refuse _ => exact ⟨b, hb, hcleared, hhalt, Nat.le_of_eq (Nat.zero_add _)⟩
  | clearStop hstage =>
    rw [hstage] at hcleared
    cases hcleared
  | plan hstage =>
    rw [Pool.plan_of_batch hb]
    refine ⟨_, rfl, rfl, hhalt, ?_⟩
    simp only [takenBy, hstage]
    exact hnothing _
  | hear hstage =>
    rw [Pool.hear_of_batch hb]
    refine ⟨_, rfl, rfl, hhalt, ?_⟩
    simp only [takenBy, hstage]
    exact hnothing _
  | allow hstage hb' hroom hgo =>
    rw [← Option.some.inj (hb.symm.trans hb'), hhalt] at hgo
    cases hgo
  | pause hstage hb' hwhy =>
    refine ⟨b, hb, rfl, hhalt, ?_⟩
    simp only [takenBy, hstage]
    exact hnothing _
  | take hstage hqueue =>
    refine ⟨b, hb, rfl, hhalt, ?_⟩
    simp [takenBy, hstage, hqueue, Stage.isAllowed]
  | runDry hstage hqueue =>
    refine ⟨b, hb, rfl, hhalt, ?_⟩
    simp only [takenBy, hstage, hqueue, List.head?_nil]
    exact hnothing _
  | launch hstage =>
    rw [Pool.launch_of_batch hb]
    refine ⟨_, rfl, rfl, hhalt, ?_⟩
    simp only [takenBy, hstage]
    exact hnothing _
  | @record f o took hstage =>
    rw [Pool.record_of_batch hb]
    refine ⟨_, rfl, rfl, ?_, ?_⟩
    · unfold Pool.isHalted at hhalt ⊢
      rw [Bool.and_or_distrib_left, ← Bool.or_assoc, hhalt, Bool.true_or]
    · simp only [takenBy, hstage]
      exact hnothing _
  | recordLoss hstage =>
    rw [Pool.recordLoss_of_batch hb]
    refine ⟨_, rfl, rfl, ?_, ?_⟩
    · unfold Pool.isHalted at hhalt ⊢
      dsimp only
      revert hhalt
      cases c.pool.stopping <;> cases c.pool.options.stopOnError <;> simp
    · simp only [takenBy, hstage]
      exact hnothing _
  | land hstage hb' hf =>
    obtain rfl := Option.some.inj (hb.symm.trans hb')
    exact ⟨_, rfl, rfl, hhalt, hnothing _⟩
  | cancel hstage => cases hm
  | leave hwhen => cases hm

/-- **A halted call takes nothing more**, but for the one task that it was allowed to take. -/
theorem length_taken_le (hb : c.pool.batch = some b) (hcleared : c.stage.hasCleared = true)
    (hhalt : c.pool.isHalted b = true) (hms : ∀ m ∈ ms, m.isMeanwhile = true)
    (hrun : c.run? ms = some c') : (c.taken ms).length ≤ c.stage.isAllowed.toNat := by
  induction ms generalizing c b with
  | nil => exact Nat.zero_le _
  | cons m ms ih =>
    obtain ⟨x, hx, hrest⟩ := Machine.run?_cons_eq_some_iff.mp hrun
    obtain ⟨b', hb', hcleared', hhalt', hone⟩ :=
      halted_step? hb hcleared hhalt (hms m (List.mem_cons_self ..)) hx
    have hlater := ih hb' hcleared' hhalt' (fun a ha => hms a (List.mem_cons_of_mem m ha)) hrest
    rw [taken, Machine.gather_cons hx, List.length_append]
    exact Nat.le_trans (Nat.add_le_add_left hlater _) hone

/-- A pool that is stopped was so before, or is by this move. -/
theorem stopping_step? (hstep : c.step? m = some c') (hstop : c'.pool.stopping = true)
    (hcleared : c'.stage.hasCleared = true) :
    c.stage.hasCleared = true ∧ (m = .stop ∨ c.pool.stopping = true) := by
  have hat : ∀ {stage : Stage ι ο}, c.stage = stage → stage.hasCleared = true →
      c.stage.hasCleared = true := fun h hs => h ▸ hs
  cases step_of_step? hstep with
  | add task | listen listener | clearQueue | clearCounts hn => exact ⟨hcleared, .inr hstop⟩
  | stop => exact ⟨hcleared, .inl rfl⟩
  | enter hidle => cases hcleared
  | refuse hb => exact ⟨hcleared, .inr hstop⟩
  | clearStop hstage => cases hstop
  | plan hstage => exact ⟨hat hstage rfl, .inr hstop⟩
  | hear hstage => exact ⟨hat hstage rfl, .inr hstop⟩
  | allow hstage hb hroom hgo => exact ⟨hat hstage rfl, .inr hstop⟩
  | pause hstage hb hwhy => exact ⟨hat hstage rfl, .inr hstop⟩
  | take hstage hqueue => exact ⟨hat hstage rfl, .inr hstop⟩
  | runDry hstage hqueue => exact ⟨hat hstage rfl, .inr hstop⟩
  | launch hstage => exact ⟨hat hstage rfl, .inr hstop⟩
  | record hstage => exact ⟨hat hstage rfl, .inr hstop⟩
  | recordLoss hstage => exact ⟨hat hstage rfl, .inr hstop⟩
  | land hstage hb hf => exact ⟨hat hstage rfl, .inr hstop⟩
  | cancel hstage =>
    refine ⟨hat hstage rfl, .inr ?_⟩
    unfold Pool.abandon at hstop
    cases hb : c.pool.batch with
    | none =>
      rw [hb] at hstop
      exact hstop
    | some b =>
      rw [hb] at hstop
      exact hstop
  | leave hwhen => cases hcleared

/-- **What stops a call is a stop since it has forgotten earlier ones.** -/
theorem exists_stop {c₀ : Calls ι ο} (hentered : c₀.stage = .entered)
    (hrun : c₀.run? ms = some c') (hstop : c'.pool.stopping = true)
    (hcleared : c'.stage.hasCleared = true) :
    ∃ before after x, ms = before ++ .stop :: after ∧ c₀.run? before = some x ∧
      x.stage.hasCleared = true := by
  induction ms using List.reverseRecOn generalizing c' with
  | nil =>
    obtain rfl := Option.some.inj hrun
    rw [hentered] at hcleared
    cases hcleared
  | append_singleton ms m ih =>
    obtain ⟨x, hx, hlast⟩ := Machine.run?_concat_eq_some_iff.mp hrun
    obtain ⟨hbefore, rfl | hstopped⟩ := stopping_step? hlast hstop hcleared
    · exact ⟨ms, [], x, rfl, hx, hbefore⟩
    · obtain ⟨before, after, y, rfl, hy, hyc⟩ := ih hx hstopped hbefore
      exact ⟨before, after ++ [m], y, by simp, hy, hyc⟩

/-- A call that has found the queue empty has just done so, or waits since then. -/
theorem runDry_step? (hm : m.isMeanwhile = true) (hstep : c.step? m = some c')
    (hdry : c'.stage = .waiting .empty) :
    m = .advance ∧ c.stage = .allowed ∧ c.pool.queue = [] ∧ c'.pool.queue = [] ∨
      c.stage = .waiting .empty ∧ c'.pool.queue = c.pool.queue ++ m.added?.toList := by
  cases step_of_step? hstep with
  | add task => exact .inr ⟨hdry, rfl⟩
  | listen listener | stop | clearCounts hn | refuse hb =>
    exact .inr ⟨hdry, (List.append_nil _).symm⟩
  | runDry hstage hqueue => exact .inl ⟨rfl, hstage, hqueue, hqueue⟩
  | pause hstage hb hwhy =>
    injection hdry with hdry
    rcases hwhy with ⟨rfl, -⟩ | ⟨rfl, -⟩ <;> cases hdry
  | clearQueue | cancel hstage | leave hwhen => cases hm
  | enter hidle | clearStop hstage | plan hstage | hear hstage | allow hstage hb hroom hgo
    | take hstage hqueue | launch hstage | record hstage | recordLoss hstage | land hstage hb hf =>
    cases hdry

/-- **What is in the queue when a call goes without being halted came too late**: after the call
found the queue empty. -/
theorem exists_lastLook {c₀ : Calls ι ο} (hentered : c₀.stage = .entered)
    (hms : ∀ m ∈ ms, m.isMeanwhile = true) (hrun : c₀.run? ms = some c')
    (hdry : c'.stage = .waiting .empty) :
    ∃ before after x, ms = before ++ .advance :: after ∧ c₀.run? before = some x ∧
      x.stage = .allowed ∧ x.pool.queue = [] ∧ c'.pool.queue = PoolMove.additions after := by
  induction ms using List.reverseRecOn generalizing c' with
  | nil =>
    obtain rfl := Option.some.inj hrun
    rw [hentered] at hdry
    cases hdry
  | append_singleton ms m ih =>
    obtain ⟨x, hx, hlast⟩ := Machine.run?_concat_eq_some_iff.mp hrun
    have hm := hms m (List.mem_append_right ms (List.mem_singleton_self m))
    rcases runDry_step? hm hlast hdry with ⟨rfl, hstage, hempty, hqueue⟩ | ⟨hstage, hqueue⟩
    · exact ⟨ms, [], x, rfl, hx, hstage, hempty, hqueue⟩
    · obtain ⟨before, after, y, rfl, hy, hlook, hempty, hlate⟩ :=
        ih (fun a ha => hms a (List.mem_append_left _ ha)) hx hstage
      refine ⟨before, after ++ [m], y, by simp, hy, hlook, hempty, ?_⟩
      rw [hqueue, hlate, PoolMove.additions_concat]

/-! ## 4. What a call has noted -/

/-- What a call has noted it keeps. -/
theorem noted_step? (hb : c.pool.batch = some b) (hm : m.isMeanwhile = true)
    (hstep : c.step? m = some c') :
    ∃ b', c'.pool.batch = some b' ∧
      (c.stage.hasPlanned = true → c'.stage.hasPlanned = true ∧ b'.planned = b.planned) ∧
      (c.stage.hasHeard = true → c'.stage.hasHeard = true ∧ b'.listener = b.listener) := by
  cases step_of_step? hstep with
  | add task | listen listener | stop | clearCounts hn | refuse _ =>
    exact ⟨b, hb, fun h => ⟨h, rfl⟩, fun h => ⟨h, rfl⟩⟩
  | clearQueue => cases hm
  | enter hidle => cases hidle.symm.trans hb
  | clearStop hstage =>
    refine ⟨b, hb, fun h => ?_, fun h => ?_⟩ <;> · rw [hstage] at h; cases h
  | plan hstage =>
    rw [Pool.plan_of_batch hb]
    refine ⟨_, rfl, fun h => ?_, fun h => ?_⟩ <;> · rw [hstage] at h; cases h
  | hear hstage =>
    rw [Pool.hear_of_batch hb]
    refine ⟨_, rfl, fun h => ⟨rfl, rfl⟩, fun h => ?_⟩
    rw [hstage] at h
    cases h
  | allow hstage hb' hroom hgo => exact ⟨b, hb, fun _ => ⟨rfl, rfl⟩, fun _ => ⟨rfl, rfl⟩⟩
  | pause hstage hb' hwhy => exact ⟨b, hb, fun _ => ⟨rfl, rfl⟩, fun _ => ⟨rfl, rfl⟩⟩
  | take hstage hqueue => exact ⟨b, hb, fun _ => ⟨rfl, rfl⟩, fun _ => ⟨rfl, rfl⟩⟩
  | runDry hstage hqueue => exact ⟨b, hb, fun _ => ⟨rfl, rfl⟩, fun _ => ⟨rfl, rfl⟩⟩
  | launch hstage =>
    rw [Pool.launch_of_batch hb]
    exact ⟨_, rfl, fun _ => ⟨rfl, rfl⟩, fun _ => ⟨rfl, rfl⟩⟩
  | record hstage =>
    rw [Pool.record_of_batch hb]
    exact ⟨_, rfl, fun _ => ⟨rfl, rfl⟩, fun _ => ⟨rfl, rfl⟩⟩
  | recordLoss hstage =>
    rw [Pool.recordLoss_of_batch hb]
    exact ⟨_, rfl, fun _ => ⟨rfl, rfl⟩, fun _ => ⟨rfl, rfl⟩⟩
  | land hstage hb' hf =>
    obtain rfl := Option.some.inj (hb.symm.trans hb')
    exact ⟨_, rfl, fun _ => ⟨rfl, rfl⟩, fun _ => ⟨rfl, rfl⟩⟩
  | cancel hstage => cases hm
  | leave hwhen => cases hm

theorem noted_run? (hb : c.pool.batch = some b) (hms : ∀ m ∈ ms, m.isMeanwhile = true)
    (hrun : c.run? ms = some c') :
    ∃ b', c'.pool.batch = some b' ∧
      (c.stage.hasPlanned = true → b'.planned = b.planned) ∧
      (c.stage.hasHeard = true → b'.listener = b.listener) := by
  induction ms generalizing c b with
  | nil =>
    obtain rfl := Option.some.inj hrun
    exact ⟨b, hb, fun _ => rfl, fun _ => rfl⟩
  | cons m ms ih =>
    obtain ⟨x, hx, hrest⟩ := Machine.run?_cons_eq_some_iff.mp hrun
    obtain ⟨b₁, hb₁, hplanned, hlistener⟩ := noted_step? hb (hms m (List.mem_cons_self ..)) hx
    obtain ⟨b₂, hb₂, hplanned', hlistener'⟩ :=
      ih hb₁ (fun a ha => hms a (List.mem_cons_of_mem m ha)) hrest
    refine ⟨b₂, hb₂, fun h => ?_, fun h => ?_⟩
    · exact (hplanned' (hplanned h).1).trans (hplanned h).2
    · exact (hlistener' (hlistener h).1).trans (hlistener h).2

/-! ## 5. The end of a call -/

/-- A call goes when it waits for nothing. -/
theorem waiting_of_leave (h : Since p ts ss extra c b) (hleave : c.step? .leave = some c') :
    ∃ why, c.stage = .waiting why ∧ b.flights = [] ∧
      c' = { c with pool := c.pool.leave, stage := .idle } := by
  cases step_of_step? hleave with
  | leave hwhen =>
    rcases hwhen with ⟨⟨why, hstage⟩, hflights⟩ | hstage
    · rw [Pool.flights_of_batch h.batch] at hflights
      exact ⟨why, hstage, hflights, rfl⟩
    · exact absurd hstage h.running.2

theorem sublist_joined (ss : List (Task ι ο × Landing ο)) :
    List.Sublist ((joined ss).map Prod.fst) (ss.map Prod.fst) := by
  induction ss with
  | nil => exact List.Sublist.slnil
  | cons s ss ih =>
    cases hs : s.2.outcome? with
    | none =>
      rw [joined, List.filterMap_cons_none (by rw [hs]; rfl)]
      exact ih.cons _
    | some o =>
      rw [joined, List.filterMap_cons_some (by rw [hs]; rfl)]
      exact ih.cons_cons _

/-- The results are one for each task that was joined, if no two tasks have one name. -/
theorem keys_results {queue rest : List (Task ι ο)} (hall : (ss.map Prod.fst).Perm ts)
    (hqueue : ts ++ rest = queue) (hids : (queue.map Task.id).Nodup) :
    ((joined ss).foldl (fun (t : Table String (Outcome ο)) j =>
      t.insert j.1.id j.2) .empty).keys.Perm ((joined ss).map fun j => j.1.id) ∧
    ∀ j ∈ joined ss, ((joined ss).foldl (fun (t : Table String (Outcome ο)) j =>
      t.insert j.1.id j.2) .empty).get? j.1.id = some j.2 := by
  have hnodup : ((joined ss).map fun j => j.1.id).Nodup := by
    rw [← hqueue, List.map_append] at hids
    have hsettled := (hall.map Task.id).nodup_iff.mpr (List.nodup_append.mp hids).1
    have hless := hsettled.sublist ((sublist_joined ss).map Task.id)
    rwa [List.map_map] at hless
  refine ⟨?_, fun j hj => ?_⟩
  · have hkeys := Table.keys_foldl_insert (fun j : Task ι ο × Outcome ο => j.1.id) Prod.snd
      (joined ss) .empty hnodup (by intro j _ hj; cases hj)
    rwa [show (Table.empty : Table String (Outcome ο)).keys = [] from rfl, List.append_nil] at hkeys
  · exact Table.get?_foldl_insert_of_mem (fun j : Task ι ο × Outcome ο => j.1.id) Prod.snd _
      hnodup hj

/-! ## 6. The whole discipline -/

/-- What a call keeps to that began in `c` and has come from `c₀` to `c₁` since it has the pool. -/
structure Discipline (c c₀ : Calls ι ο) (ms : List (PoolMove ι ο)) (c₁ : Calls ι ο) : Prop where
  /-- What is taken is, in order, the front of the queue followed by what was added, and
  the queue keeps the rest. -/
  order : c₀.taken ms ++ c₁.pool.queue = c.pool.queue ++ PoolMove.additions ms
  /-- After a stop that the call does not forget nothing is taken, but for one task if the call
  has just looked whether it may. -/
  stops : ∀ before after x, ms = before ++ .stop :: after → c₀.run? before = some x →
    x.stage.hasCleared = true → ∃ late, c₀.taken ms = c₀.taken before ++ late ∧
      late.length ≤ if x.stage.isAllowed then 1 else 0
  /-- If failures count and the `k`-th task that is settled is one, nothing is taken after it, and
  no more than `k + limit - 1` tasks in all.  A lost task is a failure. -/
  failures : ∀ before after x f landing, ms = before ++ .advance :: after →
    c₀.run? before = some x → x.stage = .settling f landing → landing.isFailure = true →
    c.pool.options.stopOnError = true →
    c₀.taken ms = c₀.taken before ∧
      (c₀.taken ms).length ≤ ((c₀.settled before).length + 1) + c.pool.options.limit - 1
  /-- The listener is told of every task that was joined, counted from one. -/
  told : ∃ b, c₁.pool.batch = some b ∧
    b.told = (if b.listener.isSome then
      Progress.series 0 b.planned (joined (c₀.settled ms)) else []) ∧
    -- what it is told as the number of tasks is the length of the queue as the call noted it
    (∀ before after x, ms = before ++ .advance :: after → c₀.run? before = some x →
      x.stage = .cleared → b.planned = x.pool.queue.length ∧
        x.pool.queue = c.pool.queue ++ PoolMove.additions before) ∧
    -- and it is the listener that the pool had when the call noted it
    ∀ before after x, ms = before ++ .advance :: after → c₀.run? before = some x →
      x.stage = .planned → b.listener = x.pool.listener
  /-- When the call goes, the queue is empty, unless the call was halted, up to what was added
  after the call had found it empty. -/
  emptied : ∀ c₂, c₁.step? .leave = some c₂ →
    (∃ before after x, ms = before ++ .stop :: after ∧ c₀.run? before = some x ∧
      x.stage.hasCleared = true) ∨
    (c.pool.options.stopOnError = true ∧ ∃ s ∈ c₀.settled ms, s.2.isFailure = true) ∨
    ∃ before after x, ms = before ++ .advance :: after ∧ c₀.run? before = some x ∧
      x.stage = .allowed ∧ x.pool.queue = [] ∧ c₂.pool.queue = PoolMove.additions after
  /-- When the call goes, the tasks settled are the tasks taken, and if no two tasks have one name,
  the results are one for each of them that was not lost. -/
  results : ∀ c₂, c₁.step? .leave = some c₂ →
    ((c₀.settled ms).map Prod.fst).Perm (c₀.taken ms) ∧
    ∃ b, c₁.pool.batch = some b ∧
      (((c.pool.queue ++ PoolMove.additions ms).map Task.id).Nodup →
        b.results.keys.Perm ((joined (c₀.settled ms)).map fun j => j.1.id) ∧
        ∀ j ∈ joined (c₀.settled ms), b.results.get? j.1.id = some j.2)

section

variable {options : PoolOptions} {history before after : List (PoolMove ι ο)}
  {c₀ c₁ c₂ x : Calls ι ο}

/-- The state of a call in the middle of it. -/
theorem since_middle (hsound : c.Sound limit) (hidle : c.stage = .idle)
    (henter : c.step? .enter = some c₀) (hms : ∀ m ∈ ms, m.isMeanwhile = true)
    (hrun : c₀.run? ms = some c₁) :
    c₁.Sound limit ∧
      ∃ b, Since c.pool (c₀.taken ms) (c₀.settled ms) (PoolMove.additions ms) c₁ b := by
  have hsound₀ := sound_step? hsound henter
  refine ⟨sound_run? hsound₀ hrun, ?_⟩
  exact since_run? (since_enter hsound hidle henter).1 hsound₀ hms hrun

/-- What a run does from one of its moves on. -/
theorem exists_next (hx : c₀.run? before = some x)
    (hrun : c₀.run? (before ++ m :: after) = some c₁) :
    ∃ y, x.step? m = some y ∧ y.run? after = some c₁ := by
  obtain ⟨x', hx', hrest⟩ := Machine.run?_append_eq_some_iff.mp hrun
  obtain rfl := Option.some.inj (hx.symm.trans hx')
  exact Machine.run?_cons_eq_some_iff.mp hrest

/-- After a move that halts the call, next to nothing is taken. -/
theorem exists_late (hms : ∀ a ∈ before ++ m :: after, a.isMeanwhile = true)
    (hx : c₀.run? before = some x) (hrun : c₀.run? (before ++ m :: after) = some c₁)
    (hquiet : x.takenBy m = none)
    (hhalts : ∀ y, x.step? m = some y → ∃ b, y.pool.batch = some b ∧ y.stage.hasCleared = true ∧
      y.pool.isHalted b = true ∧ y.stage.isAllowed = x.stage.isAllowed) :
    ∃ late, c₀.taken (before ++ m :: after) = c₀.taken before ++ late ∧
      late.length ≤ if x.stage.isAllowed then 1 else 0 := by
  obtain ⟨y, hy, hafter⟩ := exists_next hx hrun
  obtain ⟨b, hb, hcleared, hhalt, hsame⟩ := hhalts y hy
  have hle := length_taken_le hb hcleared hhalt
    (fun a ha => hms a (List.mem_append_right _ (List.mem_cons_of_mem _ ha))) hafter
  refine ⟨y.taken after, ?_, ?_⟩
  · rw [taken, Machine.gather_append hx, Machine.gather_cons hy, hquiet]
    rfl
  · rw [hsame] at hle
    cases hallowed : x.stage.isAllowed <;> rw [hallowed] at hle <;> exact hle

/-- A failure that counts halts the call that settles it. -/
theorem isHalted_of_settling {y : Calls ι ο} {f : Flight ι ο} {landing : Landing ο}
    (hsince : Since p ts ss extra x b) (hstage : x.stage = .settling f landing)
    (hfail : landing.isFailure = true) (hcount : p.options.stopOnError = true)
    (hy : x.step? .advance = some y) :
    ∃ b', y.pool.batch = some b' ∧ y.stage.hasCleared = true ∧ y.pool.isHalted b' = true ∧
      y.stage.isAllowed = x.stage.isAllowed := by
  have hadvance : x.advance? = some y := hy
  have hoptions : x.pool.options.stopOnError = true := hsince.options ▸ hcount
  simp only [advance?, hstage] at hadvance
  cases landing with
  | joined o took =>
    rw [← Option.some.inj hadvance, Pool.record_of_batch hsince.batch]
    refine ⟨_, rfl, rfl, ?_, by rw [hstage]; rfl⟩
    have hfailed : o.isFailure = true := hfail
    simp [Pool.isHalted, hoptions, hfailed]
  | lost =>
    rw [← Option.some.inj hadvance, Pool.recordLoss_of_batch hsince.batch]
    refine ⟨_, rfl, rfl, ?_, by rw [hstage]; rfl⟩
    simp [Pool.isHalted, hoptions]

/-- A task that has landed and what else is in flight fill the room at most. -/
theorem length_le_of_settling {f : Flight ι ο} {landing : Landing ο}
    (hsince : Since p ts ss extra x b) (hsound : x.Sound limit)
    (hstage : x.stage = .settling f landing) : ts.length ≤ (ss.length + 1) + limit - 1 := by
  have hlength := hsince.tasks.length_eq
  obtain ⟨-, hroom⟩ := hsound.batch b hsince.batch
  rw [hstage] at hlength hroom
  have hless : b.flights.length < limit := hroom
  simp only [Stage.held, Stage.landed, List.nil_append, List.length_append, List.length_map,
    List.length_singleton] at hlength
  omega

/-- The number of tasks that a call plans for is the length of the queue as it looks it up. -/
theorem planned_eq {b₁ : Batch ι ο} (hsince : Since p ts ss extra x b) (hstage : x.stage = .cleared)
    (hms : ∀ m ∈ after, m.isMeanwhile = true) (hrun : x.run? (.advance :: after) = some c₁)
    (hb₁ : c₁.pool.batch = some b₁) : b₁.planned = x.pool.queue.length := by
  obtain ⟨y, hy, hafter⟩ := Machine.run?_cons_eq_some_iff.mp hrun
  have hadvance : x.advance? = some y := hy
  simp only [advance?, hstage, Pool.plan_of_batch hsince.batch] at hadvance
  obtain rfl := Option.some.inj hadvance
  obtain ⟨b', hb', hplanned, -⟩ := noted_run? rfl hms hafter
  obtain rfl := Option.some.inj (hb'.symm.trans hb₁)
  exact hplanned rfl

/-- The listener of a call is the one that the pool has when the call looks for one. -/
theorem listener_eq {b₁ : Batch ι ο} (hsince : Since p ts ss extra x b)
    (hstage : x.stage = .planned) (hms : ∀ m ∈ after, m.isMeanwhile = true)
    (hrun : x.run? (.advance :: after) = some c₁) (hb₁ : c₁.pool.batch = some b₁) :
    b₁.listener = x.pool.listener := by
  obtain ⟨y, hy, hafter⟩ := Machine.run?_cons_eq_some_iff.mp hrun
  have hadvance : x.advance? = some y := hy
  simp only [advance?, hstage, Pool.hear_of_batch hsince.batch] at hadvance
  obtain rfl := Option.some.inj hadvance
  obtain ⟨b', hb', -, hlistener⟩ := noted_run? rfl hms hafter
  obtain rfl := Option.some.inj (hb'.symm.trans hb₁)
  exact hlistener rfl

/-- Why a call goes: it was stopped, a failure that counts was settled, or the queue was empty. -/
theorem halted_or_empty_of_leave (hsince : Since p ts ss extra c₁ b) (hsound : c₁.Sound limit)
    (hlimit : 0 < limit) (hleave : c₁.step? .leave = some c₂) :
    c₂.pool.queue = c₁.pool.queue ∧
      (c₁.pool.stopping = true ∧ c₁.stage.hasCleared = true ∨
        (p.options.stopOnError = true ∧ ∃ s ∈ ss, s.2.isFailure = true) ∨
        c₁.stage = .waiting .empty) := by
  obtain ⟨why, hstage, hflights, rfl⟩ := waiting_of_leave hsince hleave
  obtain ⟨-, hfits⟩ := hsound.batch b hsince.batch
  rw [hstage] at hfits
  refine ⟨rfl, ?_⟩
  cases why with
  | full =>
    have hle : limit ≤ b.flights.length := hfits
    rw [hflights, List.length_nil] at hle
    omega
  | halted =>
    have hhalt : c₁.pool.isHalted b = true := hfits
    rw [Pool.isHalted, Bool.or_eq_true, Bool.and_eq_true, hsince.failureSeen, hsince.options,
      List.any_eq_true] at hhalt
    exact hhalt.imp (fun hstop => ⟨hstop, by rw [hstage]; rfl⟩) .inl
  | empty => exact .inr (.inr hstage)

/-- When a call goes, it has settled what it has taken. -/
theorem settled_perm_of_leave (hsince : Since p ts ss extra c₁ b)
    (hleave : c₁.step? .leave = some c₂) : (ss.map Prod.fst).Perm ts := by
  obtain ⟨why, hstage, hflights, -⟩ := waiting_of_leave hsince hleave
  have htasks := hsince.tasks
  rw [hstage, hflights] at htasks
  simpa [Stage.held, Stage.landed] using htasks

/-- **A call keeps its discipline**, with anything added, stopped, listened or refused at any
moment of it, and with tasks that end in any order and way or are lost. -/
theorem call_discipline (hreach : (new options).run? history = some c) (hidle : c.stage = .idle)
    (henter : c.step? .enter = some c₀) (hms : ∀ m ∈ ms, m.isMeanwhile = true)
    (hrun : c₀.run? ms = some c₁) : Discipline c c₀ ms c₁ := by
  have hsound := sound_run? (sound_new options) hreach
  obtain ⟨hsound₁, b, hsince⟩ := since_middle hsound hidle henter hms hrun
  obtain ⟨-, hentered⟩ := since_enter hsound hidle henter
  -- the same at any earlier moment of the call, and how it goes on from there
  have hmiddle : ∀ {before m after x}, ms = before ++ m :: after → c₀.run? before = some x →
      (x.Sound (max options.limit 1) ∧ ∃ b, Since c.pool (c₀.taken before) (c₀.settled before)
        (PoolMove.additions before) x b) ∧
      (∀ a ∈ after, a.isMeanwhile = true) ∧ x.run? (m :: after) = some c₁ := by
    rintro before m after x rfl hx
    refine ⟨since_middle hsound hidle henter (fun a ha => hms a (List.mem_append_left _ ha)) hx,
      fun a ha => hms a (List.mem_append_right _ (List.mem_cons_of_mem _ ha)), ?_⟩
    obtain ⟨x', hx', hrest⟩ := Machine.run?_append_eq_some_iff.mp hrun
    rwa [← Option.some.inj (hx.symm.trans hx')] at hrest
  constructor
  case order => exact hsince.queue
  case stops =>
    rintro before after x rfl hx hcleared
    obtain ⟨⟨-, b', hsince'⟩, -⟩ := hmiddle rfl hx
    refine exists_late hms hx hrun rfl fun y hy => ?_
    obtain rfl := Option.some.inj hy
    exact ⟨b', hsince'.batch, hcleared, rfl, rfl⟩
  case failures =>
    rintro before after x f landing rfl hx hstage hfail hcount
    obtain ⟨⟨hsound', b', hsince'⟩, -⟩ := hmiddle rfl hx
    obtain ⟨late, htaken, hlate⟩ := exists_late hms hx hrun (by simp only [takenBy, hstage])
      fun y hy => isHalted_of_settling hsince' hstage hfail hcount hy
    have hnone : late = [] := by
      rw [hstage] at hlate
      exact List.length_eq_zero_iff.mp (Nat.le_zero.mp hlate)
    rw [hnone, List.append_nil] at htaken
    rw [htaken, hsound.limit_eq]
    exact ⟨rfl, length_le_of_settling hsince' hsound' hstage⟩
  case told =>
    refine ⟨b, hsince.batch, hsince.told, fun before after x hsplit hx hstage => ?_,
      fun before after x hsplit hx hstage => ?_⟩
    · obtain ⟨⟨-, b', hsince'⟩, hafter, hrest⟩ := hmiddle hsplit hx
      refine ⟨planned_eq hsince' hstage hafter hrest hsince.batch, ?_⟩
      have hqueue := hsince'.queue
      rwa [hsince'.opening (by rw [hstage]; rfl), List.nil_append] at hqueue
    · obtain ⟨⟨-, b', hsince'⟩, hafter, hrest⟩ := hmiddle hsplit hx
      exact listener_eq hsince' hstage hafter hrest hsince.batch
  case emptied =>
    intro c₂ hleave
    obtain ⟨hqueue, ⟨hstop, hcleared⟩ | hfail | hdry⟩ :=
      halted_or_empty_of_leave hsince hsound₁ (by omega) hleave
    · exact .inl (exists_stop hentered hrun hstop hcleared)
    · exact .inr (.inl hfail)
    · rw [hqueue]
      exact .inr (.inr (exists_lastLook hentered hms hrun hdry))
  case results =>
    intro c₂ hleave
    have hall := settled_perm_of_leave hsince hleave
    refine ⟨hall, b, hsince.batch, fun hids => ?_⟩
    rw [hsince.results]
    exact keys_results hall hsince.queue hids

end

/-- Two at a time, and failures count.  The second task fails while the first is in flight, and
then the first is lost.  So the third is never taken, nor is the one added meanwhile, and there
is one result, of which the listener was told. -/
theorem call_discipline_failing :
    let task : String → Task Unit Nat := fun id => ⟨id, (), fun _ => ⟨[], .value 7⟩⟩
    let history : List (PoolMove Unit Nat) :=
      [.listen 0, .add (task "a"), .add (task "b"), .add (task "c")]
    let ms : List (PoolMove Unit Nat) := List.replicate 10 .advance ++
      [.add (task "d"), .land 1 (.joined (.failure "no") 3), .advance, .advance, .enter,
        .land 0 .lost, .advance, .advance]
    ∃ c c₀ c₁ c₂, (new ⟨2, true, none⟩).run? history = some c ∧ c.stage = .idle ∧
      c.step? .enter = some c₀ ∧ (∀ m ∈ ms, m.isMeanwhile = true) ∧ c₀.run? ms = some c₁ ∧
      c₁.step? .leave = some c₂ ∧ Discipline c c₀ ms c₁ ∧
      (c₀.taken ms).map Task.id = ["a", "b"] ∧ c₂.pool.queue.map Task.id = ["c", "d"] ∧
      ∃ b, c₁.pool.batch = some b ∧ b.told = [⟨1, 3, "b"⟩] ∧ b.results.keys = ["b"] := by
  intro task history ms
  have hrun : ∃ c c₀ c₁ c₂, (new ⟨2, true, none⟩).run? history = some c ∧ c.stage = .idle ∧
      c.step? .enter = some c₀ ∧ (∀ m ∈ ms, m.isMeanwhile = true) ∧ c₀.run? ms = some c₁ ∧
      c₁.step? .leave = some c₂ ∧ (c₀.taken ms).map Task.id = ["a", "b"] ∧
      c₂.pool.queue.map Task.id = ["c", "d"] ∧
      ∃ b, c₁.pool.batch = some b ∧ b.told = [⟨1, 3, "b"⟩] ∧ b.results.keys = ["b"] :=
    ⟨_, _, _, _, rfl, rfl, rfl, by simp [ms, PoolMove.isMeanwhile], rfl, rfl, rfl, rfl, _, rfl, rfl,
      rfl⟩
  obtain ⟨c, c₀, c₁, c₂, hreach, hidle, henter, hms, hrun, hleave, htaken, hqueue, hbatch⟩ := hrun
  exact ⟨c, c₀, c₁, c₂, hreach, hidle, henter, hms, hrun, hleave,
    call_discipline hreach hidle henter hms hrun, htaken, hqueue, hbatch⟩

/-- **What a call does not keep to.**

* A stop that comes before the call, or before the call forgets earlier ones, does not keep it
  from taking a task.
* Nor does one that comes after the call has looked whether it may dispatch.
* A task that is added after the call has found the queue empty stays in the queue when the call
  goes, though nothing has halted it.
* A task that was taken and lost has no result, and the listener is not told of it. -/
theorem call_slips :
    let task : Task Unit Nat := ⟨"a", (), fun _ => ⟨[], .value 7⟩⟩
    let taken : List (PoolMove Unit Nat) → List (PoolMove Unit Nat) → List (Task Unit Nat) :=
      fun history ms => ((((new ⟨1, false, none⟩).run? history).bind fun c =>
        c.step? .enter).map fun c₀ => c₀.taken ms).getD []
    let left : List (PoolMove Unit Nat) → List (PoolMove Unit Nat) → Option (Calls Unit Nat) :=
      fun history ms => (((new ⟨1, false, none⟩).run? history).bind fun c =>
        c.step? .enter).bind fun c₀ => c₀.run? ms
    taken [.add task, .stop] (.stop :: List.replicate 5 .advance) = [task] ∧
    taken [.add task] (List.replicate 4 .advance ++ [.stop, .advance]) = [task] ∧
    (∃ c₁ c₂, left [] (List.replicate 5 .advance ++ [.add task]) = some c₁ ∧
      c₁.step? .leave = some c₂ ∧ c₂.pool.queue = [task]) ∧
    taken [.listen 0, .add task] (List.replicate 7 .advance ++ [.land 0 .lost, .advance, .advance,
      .advance]) = [task] ∧
    ∃ c₁ c₂ b, left [.listen 0, .add task] (List.replicate 7 .advance ++
        [.land 0 .lost, .advance, .advance, .advance]) = some c₁ ∧
      c₁.step? .leave = some c₂ ∧ c₁.pool.batch = some b ∧ b.results.keys = [] ∧ b.told = [] := by
  intro task taken left
  exact ⟨rfl, rfl, ⟨_, _, rfl, rfl, rfl⟩, rfl, _, _, _, rfl, rfl, rfl, rfl, rfl⟩

end Calls
end AnalysisRunner
