import AnalysisRunner.Proofs.Pool.Course

/-!
# Calls, step by step

A pool is shared, and its queue, its counts, its flags and its listener are guarded one by one.
So a call that runs a batch takes many steps, and other callers may come in between any two of
them: a task may be added after the batch has found the queue empty, or the pool stopped after
the batch has looked whether it may dispatch.

`Calls` is a pool with the place where the call stands that runs a batch on it (`Stage`).

    idle -> entered -> cleared -> planned -> deciding
    deciding -> allowed -> holding -> deciding                a task is dispatched
    deciding, allowed -> waiting -> settling -> deciding      a task has ended
    waiting -> idle                                           the batch is over
    waiting -> leaving -> idle                                the batch is given up

A move is a step that is one (`PoolMove`).  Where the call goes next is settled by its stage;
which task ends and how is open, and so is what others do meanwhile.  A call that is refused takes
one step and changes nothing.  A reset takes two, and several resets may be halfway through.

`Step` says what each move does, one constructor for each way it can go, and `step_of_step?`
that nothing else happens.  `Sound` is what every move keeps (`sound_step?`).

The actions of `PoolAction` are runs of moves that nobody comes between
(`exists_run?_of_act?`).
-/

namespace AnalysisRunner

/-- How a task that has landed ended. -/
inductive Landing (ο : Type) where
  | joined (outcome : Outcome ο) (took : Nat)
  /-- The task ended without an outcome. -/
  | lost

namespace Landing

variable {ο : Type}

/-- Whether a task failed.  A lost task did. -/
def isFailure : Landing ο → Bool
  | .joined outcome _ => outcome.isFailure
  | .lost => true

/-- The outcome, if there is one. -/
def outcome? : Landing ο → Option (Outcome ο)
  | .joined outcome _ => some outcome
  | .lost => none

end Landing

/-- Why a batch waits for a task to end. -/
inductive Pause where
  | full
  | halted
  | empty
  deriving DecidableEq, Repr

/-- Where the call stands that runs a batch. -/
inductive Stage (ι ο : Type) where
  /-- No call runs a batch. -/
  | idle
  /-- The call has the pool. -/
  | entered
  /-- The call has forgotten earlier stops. -/
  | cleared
  /-- The call knows how many tasks there are. -/
  | planned
  /-- The call is about to look whether it may dispatch. -/
  | deciding
  /-- The call may dispatch a task and has not looked into the queue. -/
  | allowed
  /-- The call has taken a task from the queue, and the task does not count as running. -/
  | holding (task : Task ι ο)
  /-- The call waits for a task to end. -/
  | waiting (why : Pause)
  /-- A task has ended, which counts as running no more, and is not recorded. -/
  | settling (flight : Flight ι ο) (landing : Landing ο)
  /-- The call has given up what was in flight. -/
  | leaving

namespace Stage

variable {ι ο : Type}

/-- The task that was taken and does not count as running. -/
def held : Stage ι ο → List (Task ι ο)
  | .holding task => [task]
  | _ => []

/-- The task that has ended and is not recorded. -/
def landed : Stage ι ο → List (Task ι ο)
  | .settling flight _ => [flight.task]
  | _ => []

/-- Whether the call has not begun to dispatch. -/
def isOpening : Stage ι ο → Bool
  | .entered | .cleared | .planned => true
  | _ => false

/-- Whether a call runs a batch and has forgotten earlier stops. -/
def hasCleared : Stage ι ο → Bool
  | .idle | .entered => false
  | _ => true

/-- Whether the call knows how many tasks there are. -/
def hasPlanned : Stage ι ο → Bool
  | .idle | .entered | .cleared => false
  | _ => true

/-- Whether the call knows who is to be told. -/
def hasHeard : Stage ι ο → Bool
  | .idle | .entered | .cleared | .planned => false
  | _ => true

/-- Whether the call has looked whether it may dispatch, and it may. -/
def isAllowed : Stage ι ο → Bool
  | .allowed => true
  | _ => false

end Stage

/-- A step that is one: of other callers, or of the call that runs a batch. -/
inductive PoolMove (ι ο : Type) where
  | add (task : Task ι ο)
  | listen (listener : Nat)
  | stop
  /-- The first half of a reset. -/
  | clearQueue
  /-- The second half of a reset. -/
  | clearCounts
  /-- A call takes the pool, or is refused. -/
  | enter
  /-- The call that runs a batch takes its next step. -/
  | advance
  /-- A task ends for which the call has waited. -/
  | land (number : Nat) (landing : Landing ο)
  /-- The call is given up while it waits, with what is in flight. -/
  | cancel
  /-- The call gives the pool free. -/
  | leave

/-- A pool, and where the calls stand. -/
structure Calls (ι ο : Type) where
  pool : Pool ι ο
  stage : Stage ι ο
  /-- How many resets have emptied the queue and not yet cleared the counts. -/
  clearing : Nat

namespace Calls

variable {ι ο : Type} {c c' : Calls ι ο} {m : PoolMove ι ο} {ms : List (PoolMove ι ο)}
  {limit : Nat}

/-- A new pool, and no call. -/
def new (options : PoolOptions) : Calls ι ο :=
  ⟨.new options, .idle, 0⟩

/-! ## 1. Moves -/

/-- What a batch finds when it looks whether it may dispatch. -/
def look (p : Pool ι ο) (b : Batch ι ο) : Stage ι ο :=
  if p.hasRoom b then
    if p.isHalted b then .waiting .halted else .allowed
  else .waiting .full

/-- The next step of the call that runs a batch, unless it waits. -/
def advance? (c : Calls ι ο) : Option (Calls ι ο) :=
  match c.stage with
  | .entered => some { c with pool := c.pool.clearStop, stage := .cleared }
  | .cleared => some { c with pool := c.pool.plan, stage := .planned }
  | .planned => some { c with pool := c.pool.hear, stage := .deciding }
  | .deciding => c.pool.batch.map fun b => { c with stage := look c.pool b }
  | .allowed =>
    match c.pool.take? with
    | some (task, pool) => some { c with pool, stage := .holding task }
    | none => some { c with stage := .waiting .empty }
  | .holding task => some { c with pool := c.pool.launch task, stage := .deciding }
  | .settling flight (.joined outcome took) =>
    some { c with pool := c.pool.record flight outcome took, stage := .deciding }
  | .settling _ .lost => some { c with pool := c.pool.recordLoss, stage := .deciding }
  | .idle | .waiting _ | .leaving => none

/-- What a move does, if it is possible. -/
def step? (c : Calls ι ο) : PoolMove ι ο → Option (Calls ι ο)
  | .add task => some { c with pool := c.pool.add task }
  | .listen listener => some { c with pool := c.pool.listen listener }
  | .stop => some { c with pool := c.pool.stop }
  | .clearQueue => some { c with pool := c.pool.clearQueue, clearing := c.clearing + 1 }
  | .clearCounts =>
    if c.clearing = 0 then none
    else some { c with pool := c.pool.clearCounts, clearing := c.clearing - 1 }
  | .enter =>
    match c.pool.enter with
    | .ok pool => some { c with pool, stage := .entered }
    | .error _ => some c
  | .advance => c.advance?
  | .land number landing =>
    match c.stage with
    | .waiting _ => (c.pool.land? number).map fun (flight, pool) =>
      { c with pool, stage := .settling flight landing }
    | _ => none
  | .cancel =>
    match c.stage with
    | .waiting _ => some { c with pool := c.pool.abandon, stage := .leaving }
    | _ => none
  | .leave =>
    match c.stage with
    | .waiting _ =>
      if c.pool.flights.isEmpty then some { c with pool := c.pool.leave, stage := .idle } else none
    | .leaving => some { c with pool := c.pool.leave, stage := .idle }
    | _ => none

/-- The calls after several moves, if each is possible when it comes. -/
def run? (c : Calls ι ο) (ms : List (PoolMove ι ο)) : Option (Calls ι ο) :=
  Machine.run? step? c ms

/-- What a move does, case by case.  A move of the call that runs a batch finds the batch. -/
inductive Step (c : Calls ι ο) : PoolMove ι ο → Calls ι ο → Prop
  | add (task : Task ι ο) : Step c (.add task) { c with pool := c.pool.add task }
  | listen (listener : Nat) : Step c (.listen listener) { c with pool := c.pool.listen listener }
  | stop : Step c .stop { c with pool := c.pool.stop }
  | clearQueue :
    Step c .clearQueue { c with pool := c.pool.clearQueue, clearing := c.clearing + 1 }
  | clearCounts (h : c.clearing ≠ 0) :
    Step c .clearCounts { c with pool := c.pool.clearCounts, clearing := c.clearing - 1 }
  | enter (h : c.pool.batch = none) :
    Step c .enter { c with pool := { c.pool with batch := some .blank }, stage := .entered }
  | refuse {b : Batch ι ο} (h : c.pool.batch = some b) : Step c .enter c
  | clearStop (h : c.stage = .entered) :
    Step c .advance { c with pool := c.pool.clearStop, stage := .cleared }
  | plan (h : c.stage = .cleared) :
    Step c .advance { c with pool := c.pool.plan, stage := .planned }
  | hear (h : c.stage = .planned) :
    Step c .advance { c with pool := c.pool.hear, stage := .deciding }
  | allow {b : Batch ι ο} (h : c.stage = .deciding) (hb : c.pool.batch = some b)
    (hroom : b.flights.length < c.pool.options.limit) (hgo : c.pool.isHalted b = false) :
    Step c .advance { c with stage := .allowed }
  | pause {b : Batch ι ο} {why : Pause} (h : c.stage = .deciding) (hb : c.pool.batch = some b)
    (hwhy : why = .full ∧ c.pool.options.limit ≤ b.flights.length ∨
      why = .halted ∧ c.pool.isHalted b = true) :
    Step c .advance { c with stage := .waiting why }
  | take {task : Task ι ο} {rest : List (Task ι ο)} (h : c.stage = .allowed)
    (hqueue : c.pool.queue = task :: rest) :
    Step c .advance { c with pool := { c.pool with queue := rest }, stage := .holding task }
  | runDry (h : c.stage = .allowed) (hqueue : c.pool.queue = []) :
    Step c .advance { c with stage := .waiting .empty }
  | launch {task : Task ι ο} (h : c.stage = .holding task) :
    Step c .advance { c with pool := c.pool.launch task, stage := .deciding }
  | record {flight : Flight ι ο} {outcome : Outcome ο} {took : Nat}
    (h : c.stage = .settling flight (.joined outcome took)) :
    Step c .advance { c with pool := c.pool.record flight outcome took, stage := .deciding }
  | recordLoss {flight : Flight ι ο} (h : c.stage = .settling flight .lost) :
    Step c .advance { c with pool := c.pool.recordLoss, stage := .deciding }
  | land {why : Pause} {number : Nat} {landing : Landing ο} {b : Batch ι ο} {f : Flight ι ο}
    (h : c.stage = .waiting why) (hb : c.pool.batch = some b)
    (hf : b.flights.find? (fun f => f.number = number) = some f) :
    Step c (.land number landing) { c with
      pool := { c.pool with
        counts := c.pool.counts.landed
        batch := some { b with flights := b.flights.filter fun f => f.number ≠ number } }
      stage := .settling f landing }
  | cancel {why : Pause} (h : c.stage = .waiting why) :
    Step c .cancel { c with pool := c.pool.abandon, stage := .leaving }
  | leave (h : (∃ why, c.stage = .waiting why) ∧ c.pool.flights = [] ∨ c.stage = .leaving) :
    Step c .leave { c with pool := c.pool.leave, stage := .idle }

theorem step_of_advance? (h : c.advance? = some c') : Step c .advance c' := by
  unfold advance? at h
  cases hstage : c.stage with
  | entered =>
    rw [hstage] at h
    exact Option.some.inj h ▸ .clearStop hstage
  | cleared =>
    rw [hstage] at h
    exact Option.some.inj h ▸ .plan hstage
  | planned =>
    rw [hstage] at h
    exact Option.some.inj h ▸ .hear hstage
  | deciding =>
    rw [hstage] at h
    obtain ⟨b, hb, rfl⟩ := Option.map_eq_some_iff.mp h
    unfold look Pool.hasRoom
    by_cases hroom : b.flights.length < c.pool.options.limit
    · cases hhalt : c.pool.isHalted b with
      | true =>
        simp only [hroom, decide_true, if_true]
        exact .pause hstage hb (.inr ⟨rfl, hhalt⟩)
      | false =>
        simp only [hroom, decide_true, if_true, Bool.false_eq_true, if_false]
        exact .allow hstage hb hroom hhalt
    · simp only [hroom, decide_false, Bool.false_eq_true, if_false]
      exact .pause hstage hb (.inl ⟨rfl, Nat.le_of_not_lt hroom⟩)
  | allowed =>
    rw [hstage] at h
    cases hqueue : c.pool.queue with
    | nil =>
      rw [Pool.take?, hqueue] at h
      exact Option.some.inj h ▸ .runDry hstage hqueue
    | cons task rest =>
      rw [Pool.take?, hqueue] at h
      exact Option.some.inj h ▸ .take hstage hqueue
  | holding task =>
    rw [hstage] at h
    exact Option.some.inj h ▸ .launch hstage
  | settling flight landing =>
    rw [hstage] at h
    cases landing with
    | joined outcome took => exact Option.some.inj h ▸ .record hstage
    | lost => exact Option.some.inj h ▸ .recordLoss hstage
  | idle | waiting why | leaving =>
    rw [hstage] at h
    cases h

/-- **A move does what its case says**, and nothing else. -/
theorem step_of_step? (h : c.step? m = some c') : Step c m c' := by
  cases m with
  | add task => exact Option.some.inj h ▸ .add task
  | listen listener => exact Option.some.inj h ▸ .listen listener
  | stop => exact Option.some.inj h ▸ .stop
  | clearQueue => exact Option.some.inj h ▸ .clearQueue
  | clearCounts =>
    rw [step?] at h
    split at h
    · cases h
    · exact Option.some.inj h ▸ .clearCounts ‹_›
  | enter =>
    rw [step?, Pool.enter] at h
    cases hb : c.pool.batch with
    | none =>
      rw [hb] at h
      exact Option.some.inj h ▸ .enter hb
    | some b =>
      rw [hb] at h
      exact Option.some.inj h ▸ .refuse hb
  | advance => exact step_of_advance? h
  | land number landing =>
    rw [step?] at h
    split at h
    · obtain ⟨⟨f, pool⟩, hland, rfl⟩ := Option.map_eq_some_iff.mp h
      obtain ⟨b, hb, hf, rfl⟩ := Pool.land?_eq_some_iff.mp hland
      exact .land ‹_› hb hf
    · cases h
  | cancel =>
    rw [step?] at h
    split at h
    · exact Option.some.inj h ▸ .cancel ‹_›
    · cases h
  | leave =>
    rw [step?] at h
    split at h
    · split at h
      · exact Option.some.inj h ▸ .leave (.inl ⟨⟨_, ‹_›⟩, List.isEmpty_iff.mp ‹_›⟩)
      · cases h
    · exact Option.some.inj h ▸ .leave (.inr ‹_›)
    · cases h

/-! ## 2. Sound calls -/

/-- What is known of a batch at a stage of its call. -/
def Fits (limit : Nat) (halted : Bool) (b : Batch ι ο) : Stage ι ο → Prop
  | .allowed | .holding _ | .settling _ _ => b.flights.length < limit
  | .waiting .full => limit ≤ b.flights.length
  | .waiting .halted => halted = true
  | .leaving => b.flights = []
  | _ => True

/-- A batch is on exactly while a call runs it, there is room for what it has taken, and it waits
with a reason. -/
structure Sound (limit : Nat) (c : Calls ι ο) : Prop where
  limit_eq : c.pool.options.limit = limit
  idle_iff : c.stage = .idle ↔ c.pool.batch = none
  batch : ∀ b, c.pool.batch = some b → b.Sound limit ∧ Fits limit (c.pool.isHalted b) b c.stage

theorem sound_new (options : PoolOptions) :
    (new options : Calls ι ο).Sound (max options.limit 1) where
  limit_eq := rfl
  idle_iff := ⟨fun _ => rfl, fun _ => rfl⟩
  batch := by
    intro b hb
    cases hb

namespace Sound

theorem exists_batch (h : c.Sound limit) (hstage : c.stage ≠ .idle) :
    ∃ b, c.pool.batch = some b :=
  Option.ne_none_iff_exists'.mp (mt h.idle_iff.mpr hstage)

/-- A move of others leaves the batch alone, and can only halt it. -/
theorem of_others (h : c.Sound limit) {p : Pool ι ο} (n : Nat)
    (hoptions : p.options = c.pool.options) (hbatch : p.batch = c.pool.batch)
    (hstop : p.stopping = c.pool.stopping ∨ p.stopping = true) :
    ({ c with pool := p, clearing := n } : Calls ι ο).Sound limit where
  limit_eq := by
    rw [hoptions]
    exact h.limit_eq
  idle_iff := by
    rw [hbatch]
    exact h.idle_iff
  batch := by
    intro b hb
    obtain ⟨hsound, hfits⟩ := h.batch b (hbatch ▸ hb)
    refine ⟨hsound, ?_⟩
    have hmore : c.pool.isHalted b = true → p.isHalted b = true := by
      unfold Pool.isHalted
      rw [hoptions]
      rcases hstop with hsame | hstop
      · rw [hsame]
        exact id
      · rw [hstop]
        exact fun _ => rfl
    show Fits limit (p.isHalted b) b c.stage
    cases hstage : c.stage with
    | waiting why =>
      rw [hstage] at hfits
      cases why with
      | halted => exact hmore hfits
      | full => exact hfits
      | empty => trivial
    | _ =>
      rw [hstage] at hfits
      exact hfits

/-- A move of the call that runs a batch. -/
theorem of_own (h : c.Sound limit) {p : Pool ι ο} {b : Batch ι ο} {stage : Stage ι ο}
    (hoptions : p.options = c.pool.options) (hb : p.batch = some b) (hstage : stage ≠ .idle)
    (hsound : b.Sound limit) (hfits : Fits limit (p.isHalted b) b stage) :
    ({ c with pool := p, stage } : Calls ι ο).Sound limit where
  limit_eq := by
    rw [hoptions]
    exact h.limit_eq
  idle_iff := by
    rw [hb]
    exact ⟨fun hidle => absurd hidle hstage, fun hnone => by cases hnone⟩
  batch := by
    intro b' hb'
    obtain rfl := Option.some.inj (hb.symm.trans hb')
    exact ⟨hsound, hfits⟩

end Sound

/-- **Every move keeps calls sound.** -/
theorem sound_step? (h : c.Sound limit) (hstep : c.step? m = some c') : c'.Sound limit := by
  have hat : ∀ {stage : Stage ι ο}, c.stage = stage → stage ≠ .idle →
      ∃ b, c.pool.batch = some b ∧ b.Sound limit ∧ Fits limit (c.pool.isHalted b) b stage := by
    intro stage hstage hne
    obtain ⟨b, hb⟩ := h.exists_batch (hstage ▸ hne)
    exact ⟨b, hb, hstage ▸ h.batch b hb⟩
  cases step_of_step? hstep with
  | add task => exact h.of_others c.clearing rfl rfl (.inl rfl)
  | listen listener => exact h.of_others c.clearing rfl rfl (.inl rfl)
  | stop => exact h.of_others c.clearing rfl rfl (.inr rfl)
  | clearQueue => exact h.of_others (c.clearing + 1) rfl rfl (.inl rfl)
  | clearCounts => exact h.of_others (c.clearing - 1) rfl rfl (.inl rfl)
  | enter hb =>
    have hblank : (Batch.blank : Batch ι ο).Sound limit :=
      ⟨List.Pairwise.nil, fun f hf => (by cases hf), Nat.zero_le _⟩
    exact h.of_own rfl rfl (by simp) hblank trivial
  | refuse hb => exact h
  | clearStop hstage =>
    obtain ⟨b, hb, hsound, -⟩ := hat hstage (by simp)
    exact h.of_own rfl hb (by simp) hsound trivial
  | plan hstage =>
    obtain ⟨b, hb, hsound, -⟩ := hat hstage (by simp)
    rw [Pool.plan_of_batch hb]
    exact h.of_own rfl rfl (by simp) ⟨hsound.numbers, hsound.numbers_lt, hsound.length_le⟩ trivial
  | hear hstage =>
    obtain ⟨b, hb, hsound, -⟩ := hat hstage (by simp)
    rw [Pool.hear_of_batch hb]
    exact h.of_own rfl rfl (by simp) ⟨hsound.numbers, hsound.numbers_lt, hsound.length_le⟩ trivial
  | allow hstage hb hroom hgo =>
    exact h.of_own rfl hb (by simp) (h.batch _ hb).1 (h.limit_eq ▸ hroom)
  | pause hstage hb hwhy =>
    refine h.of_own rfl hb (by simp) (h.batch _ hb).1 ?_
    rcases hwhy with ⟨rfl, hfull⟩ | ⟨rfl, hhalt⟩
    · exact h.limit_eq ▸ hfull
    · exact hhalt
  | take hstage hqueue =>
    obtain ⟨b, hb, hsound, hroom⟩ := hat hstage (by simp)
    exact h.of_own rfl hb (by simp) hsound hroom
  | runDry hstage hqueue =>
    obtain ⟨b, hb, hsound, -⟩ := hat hstage (by simp)
    exact h.of_own rfl hb (by simp) hsound trivial
  | @launch task hstage =>
    obtain ⟨b, hb, hsound, hroom⟩ := hat hstage (by simp)
    rw [Pool.launch_of_batch hb]
    exact h.of_own rfl rfl (by simp) (hsound.snoc hroom task rfl rfl) trivial
  | record hstage =>
    obtain ⟨b, hb, hsound, -⟩ := hat hstage (by simp)
    rw [Pool.record_of_batch hb]
    exact h.of_own rfl rfl (by simp) ⟨hsound.numbers, hsound.numbers_lt, hsound.length_le⟩ trivial
  | recordLoss hstage =>
    obtain ⟨b, hb, hsound, -⟩ := hat hstage (by simp)
    rw [Pool.recordLoss_of_batch hb]
    exact h.of_own rfl rfl (by simp) ⟨hsound.numbers, hsound.numbers_lt, hsound.length_le⟩ trivial
  | @land why number landing b f hstage hb hf =>
    have hsound := (h.batch b hb).1
    have hless := (hsound.perm_find hf).length_eq
    have hle := hsound.length_le
    rw [List.length_cons] at hless
    refine h.of_own rfl rfl (by simp) (hsound.without number rfl rfl) ?_
    show (b.flights.filter fun f => f.number ≠ number).length < limit
    omega
  | cancel hstage =>
    obtain ⟨b, hb, hsound, -⟩ := hat hstage (by simp)
    rw [Pool.abandon_of_batch hb]
    refine h.of_own rfl rfl (by simp) ⟨List.Pairwise.nil, ?_, Nat.zero_le _⟩ rfl
    intro f hf
    cases hf
  | leave hwhen =>
    refine ⟨h.limit_eq, ⟨fun _ => rfl, fun _ => rfl⟩, ?_⟩
    intro b hb
    cases hb

theorem sound_run? (h : c.Sound limit) (hrun : c.run? ms = some c') : c'.Sound limit :=
  Machine.run?_induction (fun _ _ _ _ h hstep => sound_step? h hstep) h hrun

/-! ## 3. Actions as runs of moves -/

/-- Whether an action can come at a stage of the call that runs a batch. -/
def IsDue (stage : Stage ι ο) : PoolAction ι ο → Prop
  | .dispatch => stage = .deciding
  | .join _ _ _ | .lose _ | .finish | .cancel => ∃ why, stage = .waiting why
  | _ => True

/-- **An action that nobody comes between is a run of its moves.** -/
theorem exists_run?_of_act? {a : PoolAction ι ο} {q : Pool ι ο} (hdue : IsDue c.stage a)
    (hact : c.pool.act? a = some q) :
    ∃ ms stage, c.run? ms = some { c with pool := q, stage } := by
  cases a with
  | add task => exact ⟨[.add task], c.stage, Option.some.inj hact ▸ rfl⟩
  | listen listener => exact ⟨[.listen listener], c.stage, Option.some.inj hact ▸ rfl⟩
  | stop => exact ⟨[.stop], c.stage, Option.some.inj hact ▸ rfl⟩
  | reset => exact ⟨[.clearQueue, .clearCounts], c.stage, Option.some.inj hact ▸ rfl⟩
  | execute =>
    cases hb : c.pool.batch with
    | some b =>
      rw [Pool.act?, Pool.begin_of_batch hb] at hact
      refine ⟨[.enter], c.stage, Machine.run?_cons_eq_some_iff.mpr ⟨c, ?_, ?_⟩⟩
      · simp only [step?, Pool.enter, hb]
      · rw [← Option.some.inj hact]
        rfl
    | none =>
      rw [Pool.act?, Pool.begin_of_idle hb] at hact
      refine ⟨[.enter, .advance, .advance, .advance], .deciding,
        Machine.run?_cons_eq_some_iff.mpr
          ⟨⟨{ c.pool with batch := some .blank }, .entered, c.clearing⟩, ?_, ?_⟩⟩
      · simp only [step?, Pool.enter, hb]
      · rw [← Option.some.inj hact]
        rfl
  | dispatch =>
    have hstage : c.stage = .deciding := hdue
    obtain ⟨b, t, rest, hb, hqueue, hroom, hgo, rfl⟩ := Pool.dispatch?_eq_some_iff.mp hact
    refine ⟨[.advance, .advance, .advance], .deciding, Machine.run?_cons_eq_some_iff.mpr
      ⟨{ c with stage := .allowed }, ?_, Machine.run?_cons_eq_some_iff.mpr
        ⟨⟨{ c.pool with queue := rest }, .holding t, c.clearing⟩, ?_,
          Machine.run?_cons_eq_some_iff.mpr ⟨_, rfl, ?_⟩⟩⟩⟩
    · simp only [step?, advance?, hstage, hb, Option.map_some, look, Pool.hasRoom, hroom, hgo,
        decide_true, if_true, Bool.false_eq_true, if_false]
    · simp only [step?, advance?, Pool.take?, hqueue]
    · rw [Pool.launch_of_batch (p := { c.pool with queue := rest }) hb]
      rfl
  | join number o took =>
    obtain ⟨why, hstage⟩ := hdue
    obtain ⟨⟨f, p⟩, hland, rfl⟩ := Option.map_eq_some_iff.mp hact
    refine ⟨[.land number (.joined o took), .advance], .deciding, Machine.run?_cons_eq_some_iff.mpr
      ⟨{ c with pool := p, stage := .settling f (.joined o took) }, ?_, rfl⟩⟩
    simp only [step?, hstage, hland, Option.map_some]
  | lose number =>
    obtain ⟨why, hstage⟩ := hdue
    obtain ⟨⟨f, p⟩, hland, rfl⟩ := Option.map_eq_some_iff.mp hact
    refine ⟨[.land number .lost, .advance], .deciding,
      Machine.run?_cons_eq_some_iff.mpr ⟨{ c with pool := p, stage := .settling f .lost }, ?_, rfl⟩⟩
    simp only [step?, hstage, hland, Option.map_some]
  | finish =>
    obtain ⟨why, hstage⟩ := hdue
    obtain ⟨⟨results, p⟩, hfinish, rfl⟩ := Option.map_eq_some_iff.mp hact
    obtain ⟨b, hb, hflights, -, -, rfl⟩ := Pool.finish?_eq_some_iff.mp hfinish
    refine ⟨[.leave], .idle, Machine.run?_cons_eq_some_iff.mpr ⟨_, ?_, rfl⟩⟩
    simp only [step?, hstage, Pool.flights_of_batch hb, hflights, List.isEmpty_nil, if_true]
    rfl
  | cancel =>
    obtain ⟨why, hstage⟩ := hdue
    refine ⟨[.cancel, .leave], .idle, Machine.run?_cons_eq_some_iff.mpr
      ⟨{ c with pool := c.pool.abandon, stage := .leaving }, ?_, ?_⟩⟩
    · simp only [step?, hstage]
    · rw [← Option.some.inj hact]
      rfl

end Calls
end AnalysisRunner
