import Mathlib.Data.List.Basic
import Mathlib.Data.List.Induction
import Mathlib.Data.List.Perm.Basic
import AnalysisRunner.Proofs.Pool.Exclusion

/-!
# What is counted after a reset

A reset empties the queue and clears the counts, but it does not touch the batch.  What was
in flight goes on, and when it ends it is counted like any other task.  So after a reset the
counts of a pool speak of two kinds of tasks: those added since the reset, and those that
the reset found in flight and that have ended since.

An *epoch* is the time since the last reset.  It keeps the two kinds apart, task by task.
Tasks in flight are told apart by their numbers: numbers increase, so what was dispatched
before the reset has a smaller number than what was dispatched after it, until the batch
is over and the numbering begins anew.  Every run of a pool has its epoch (`exists_run?`).

`Kept` is the invariant.  The tasks added in the epoch are in the queue, in flight, completed
or failed, each once, and the tasks left over from before are in flight or late.  Completed
and failed tasks are counted together with the late ones.  The running tasks are not:
a late task takes one off their number although it was never counted there, unless the number
is zero already.  So the number of running tasks lies between the number of tasks of the epoch
in flight and that number less the number of late tasks.

It follows that a pool never tells less than it should, that it tells too much by at most
the number of late tasks, and that it tells the truth about the epoch exactly as long as no
task is late (`counts_since_reset`).
-/

namespace AnalysisRunner

/-- All the tasks that are told to be somewhere. -/
def PoolTally.accounted (s : PoolTally) : Nat :=
  s.completed + s.failed + s.running + s.queued

/-- A pool and what became of its tasks since the last reset. -/
structure Epoch (ι ο : Type) where
  pool : Pool ι ο
  /-- Tasks in flight with a smaller number were dispatched before the reset. -/
  since : Nat
  /-- The tasks added since the reset. -/
  added : List (Task ι ο)
  /-- The tasks added since the reset that have completed. -/
  completed : List (Task ι ο)
  /-- The tasks added since the reset that have failed. -/
  failed : List (Task ι ο)
  /-- The tasks that were in flight at the reset. -/
  leftOver : List (Task ι ο)
  /-- The tasks left over that have completed since. -/
  lateCompleted : List (Task ι ο)
  /-- The tasks left over that have failed since. -/
  lateFailed : List (Task ι ο)

namespace Epoch

variable {ι ο : Type} {e e' : Epoch ι ο} {a : PoolAction ι ο} {as : List (PoolAction ι ο)}
  {options : PoolOptions}

/-- The epoch of a new pool. -/
def new (options : PoolOptions) : Epoch ι ο :=
  ⟨.new options, 0, [], [], [], [], [], []⟩

/-- Whether a task in flight was dispatched since the reset. -/
def isCurrent (since : Nat) (f : Flight ι ο) : Bool :=
  since ≤ f.number

/-- The tasks in flight that were added since the reset. -/
def current (e : Epoch ι ο) : List (Flight ι ο) :=
  e.pool.flights.filter (isCurrent e.since)

/-- The tasks in flight that were in flight at the reset. -/
def older (e : Epoch ι ο) : List (Flight ι ο) :=
  e.pool.flights.filter fun f => !isCurrent e.since f

/-- The tasks that were in flight at the reset and have ended since. -/
def late (e : Epoch ι ο) : List (Task ι ο) :=
  e.lateCompleted ++ e.lateFailed

/-- Some of the tasks in flight end, all of them well or all of them badly. -/
def settle (e : Epoch ι ο) (pool : Pool ι ο) (ended : Flight ι ο → Bool) (failing : Bool) :
    Epoch ι ο :=
  let own := (e.current.filter ended).map Flight.task
  let old := (e.older.filter ended).map Flight.task
  { e with
    pool
    completed := if failing then e.completed else e.completed ++ own
    failed := if failing then e.failed ++ own else e.failed
    lateCompleted := if failing then e.lateCompleted else e.lateCompleted ++ old
    lateFailed := if failing then e.lateFailed ++ old else e.lateFailed }

/-- The epoch after an action that was done. -/
def note (e : Epoch ι ο) (pool : Pool ι ο) : PoolAction ι ο → Epoch ι ο
  | .add task => { e with pool, added := e.added ++ [task] }
  | .reset =>
    { new pool.options with
      pool
      since := (e.pool.batch.map Batch.dispatched).getD 0
      leftOver := e.pool.flights.map Flight.task }
  | .execute => { e with pool, since := if e.pool.isProcessing then e.since else 0 }
  | .join number outcome _ => e.settle pool (fun f => f.number = number) outcome.isFailure
  | .lose number => e.settle pool (fun f => f.number = number) true
  | .cancel => e.settle pool (fun _ => true) true
  | .listen _ | .stop | .dispatch | .finish => { e with pool }

/-- Whether an action resets the pool. -/
def resets : PoolAction ι ο → Bool
  | .reset => true
  | _ => false

/-- The tasks that a run adds and that no later reset forgets. -/
def addedSince (tasks : List (Task ι ο)) : PoolAction ι ο → List (Task ι ο)
  | .add task => tasks ++ [task]
  | .reset => []
  | _ => tasks

/-- The epoch after an action, if the action is possible. -/
def act? (e : Epoch ι ο) (a : PoolAction ι ο) : Option (Epoch ι ο) :=
  (e.pool.act? a).map fun pool => e.note pool a

/-- The epoch after several actions, if each is possible when it comes. -/
def run? (e : Epoch ι ο) (as : List (PoolAction ι ο)) : Option (Epoch ι ο) :=
  Machine.run? act? e as

theorem pool_note (e : Epoch ι ο) (pool : Pool ι ο) (a : PoolAction ι ο) :
    (e.note pool a).pool = pool := by
  cases a <;> rfl

theorem act?_eq_some_iff : e.act? a = some e' ↔
    ∃ pool, e.pool.act? a = some pool ∧ e.note pool a = e' :=
  Option.map_eq_some_iff

/-- **Every run of a pool has its epoch.** -/
theorem exists_run? {p : Pool ι ο} (h : e.pool.run? as = some p) :
    ∃ e', e.run? as = some e' ∧ e'.pool = p := by
  induction as generalizing e with
  | nil => exact ⟨e, rfl, Option.some.inj h⟩
  | cons a as ih =>
    obtain ⟨q, hq, hrest⟩ := Pool.run?_cons_eq_some_iff.mp h
    rw [← e.pool_note q a] at hrest
    obtain ⟨e', he', hpool⟩ := ih hrest
    refine ⟨e', ?_, hpool⟩
    exact Machine.run?_cons_eq_some_iff.mpr ⟨_, act?_eq_some_iff.mpr ⟨q, hq, rfl⟩, he'⟩

/-! ## 1. The invariant -/

/-- Every task is accounted for, in its epoch, and the counts are what they are. -/
structure Kept (e : Epoch ι ο) : Prop where
  since_le : ∀ b, e.pool.batch = some b → e.since ≤ b.dispatched
  tasks : (e.pool.queue ++ (e.current.map Flight.task ++ (e.completed ++ e.failed))).Perm e.added
  leftOver : (e.older.map Flight.task ++ (e.lateCompleted ++ e.lateFailed)).Perm e.leftOver
  total : e.pool.counts.total = e.added.length
  completed : e.pool.counts.completed = e.completed.length + e.lateCompleted.length
  failed : e.pool.counts.failed = e.failed.length + e.lateFailed.length
  running_le : e.pool.counts.running ≤ e.current.length
  le_running : e.current.length ≤
    e.pool.counts.running + (e.lateCompleted.length + e.lateFailed.length)

theorem kept_new (options : PoolOptions) : (new options : Epoch ι ο).Kept where
  since_le := by
    intro b hb
    cases hb
  tasks := List.Perm.refl _
  leftOver := List.Perm.refl _
  total := rfl
  completed := rfl
  failed := rfl
  running_le := Nat.le_refl _
  le_running := Nat.le_refl _

namespace Kept

/-- An action that touches neither queue, counts nor flights. -/
theorem of_same (h : e.Kept) {pool : Pool ι ο} {since : Nat} (hqueue : pool.queue = e.pool.queue)
    (hcounts : pool.counts = e.pool.counts) (hflights : pool.flights = e.pool.flights)
    (hsince : ∀ b, pool.batch = some b → since ≤ b.dispatched)
    (hparts : since = e.since ∨ e.pool.flights = []) : Kept { e with pool, since } := by
  obtain ⟨hcurrent, holder⟩ : current { e with pool, since } = e.current ∧
      older { e with pool, since } = e.older := by
    unfold current older
    dsimp only
    rw [hflights]
    rcases hparts with rfl | hnone
    · exact ⟨rfl, rfl⟩
    · rw [hnone]
      exact ⟨rfl, rfl⟩
  refine ⟨hsince, ?_, ?_, ?_, ?_, ?_, ?_, ?_⟩
  · rw [hcurrent, hqueue]
    exact h.tasks
  · rw [holder]
    exact h.leftOver
  · rw [hcounts]
    exact h.total
  · rw [hcounts]
    exact h.completed
  · rw [hcounts]
    exact h.failed
  · rw [hcurrent, hcounts]
    exact h.running_le
  · rw [hcurrent, hcounts]
    exact h.le_running

theorem add (h : e.Kept) (task : Task ι ο) : (e.note (e.pool.add task) (.add task)).Kept where
  since_le := h.since_le
  tasks := by
    show (e.pool.queue ++ [task] ++ (e.current.map Flight.task ++ (e.completed ++ e.failed))).Perm
      (e.added ++ [task])
    refine List.Perm.trans ?_ (h.tasks.append_right [task])
    rw [List.append_assoc, List.append_assoc]
    exact List.perm_append_comm.append_left _
  leftOver := h.leftOver
  total := by
    show e.pool.counts.total + 1 = (e.added ++ [task]).length
    rw [h.total, List.length_append]
    rfl
  completed := h.completed
  failed := h.failed
  running_le := h.running_le
  le_running := h.le_running

/-- At a reset everything in flight is left over. -/
theorem reset (hsound : ∀ b, e.pool.batch = some b → ∀ f ∈ b.flights, f.number < b.dispatched) :
    (e.note e.pool.reset .reset).Kept := by
  have hbefore : ∀ f ∈ e.pool.flights,
      isCurrent ((e.pool.batch.map Batch.dispatched).getD 0) f = false := by
    intro f hf
    cases hb : e.pool.batch with
    | none =>
      rw [Pool.flights_of_idle hb] at hf
      cases hf
    | some b =>
      rw [Pool.flights_of_batch hb] at hf
      exact decide_eq_false (Nat.not_le.mpr (hsound b hb f hf))
  have hcurrent : (e.note e.pool.reset .reset).current = [] :=
    List.filter_eq_nil_iff.mpr fun f hf => Bool.not_eq_true _ ▸ hbefore f hf
  have holder : (e.note e.pool.reset .reset).older = e.pool.flights :=
    List.filter_eq_self.mpr fun f hf => congrArg not (hbefore f hf)
  refine ⟨?_, ?_, ?_, rfl, rfl, rfl, Nat.zero_le _, ?_⟩
  · intro b hb
    show (e.pool.batch.map Batch.dispatched).getD 0 ≤ b.dispatched
    rw [show e.pool.batch = some b from hb]
    exact Nat.le_refl _
  · rw [hcurrent]
    exact List.Perm.refl _
  · rw [holder]
    show (e.pool.flights.map Flight.task ++ ([] ++ [])).Perm (e.pool.flights.map Flight.task)
    rw [List.append_nil, List.append_nil]
  · rw [hcurrent]
    exact Nat.zero_le _

theorem execute (h : e.Kept) {pool : Pool ι ο} (hact : e.pool.act? .execute = some pool) :
    (e.note pool .execute).Kept := by
  cases hb : e.pool.batch with
  | none =>
    have hidle : e.pool.isProcessing = false := by rw [Pool.isProcessing, hb]; rfl
    rw [Pool.act?, Pool.begin_of_idle hb] at hact
    obtain rfl := Option.some.inj hact
    rw [note, hidle]
    exact h.of_same rfl rfl (Pool.flights_of_idle hb).symm (fun b _ => Nat.zero_le _)
      (.inr (Pool.flights_of_idle hb))
  | some b =>
    have hbusy : e.pool.isProcessing = true := by rw [Pool.isProcessing, hb]; rfl
    rw [Pool.act?, Pool.begin_of_batch hb] at hact
    obtain rfl := Option.some.inj hact
    rw [note, hbusy]
    exact h.of_same rfl rfl rfl h.since_le (.inl rfl)

/-- A task goes from the head of the queue into flight; its number makes it one of the
epoch. -/
theorem depart (h : e.Kept) {pool : Pool ι ο} {f : Flight ι ο} (hnumber : e.since ≤ f.number)
    (hsince : ∀ b, pool.batch = some b → e.since ≤ b.dispatched)
    (hqueue : e.pool.queue = f.task :: pool.queue)
    (hflights : pool.flights = e.pool.flights ++ [f])
    (hcounts : pool.counts = e.pool.counts.launched) :
    Kept { e with pool } := by
  have hnew : isCurrent e.since f = true := decide_eq_true hnumber
  have hcurrent : current { e with pool } = e.current ++ [f] := by
    show pool.flights.filter (isCurrent e.since) = _
    rw [hflights, List.filter_append, List.filter_cons_of_pos hnew]
    rfl
  have holder : older { e with pool } = e.older := by
    show pool.flights.filter (fun f => !isCurrent e.since f) = _
    rw [hflights, List.filter_append, List.filter_cons_of_neg (by simpa using hnew),
      List.filter_nil, List.append_nil]
    rfl
  refine ⟨hsince, ?_, ?_, ?_, ?_, ?_, ?_, ?_⟩
  · have htasks := h.tasks
    rw [hqueue] at htasks
    refine List.Perm.trans ?_ htasks
    rw [hcurrent, List.map_append, List.append_assoc]
    exact (List.perm_middle.append_left pool.queue).trans List.perm_middle
  · rw [holder]
    exact h.leftOver
  · rw [hcounts]
    exact h.total
  · rw [hcounts]
    exact h.completed
  · rw [hcounts]
    exact h.failed
  · rw [hcurrent, hcounts, List.length_append]
    exact Nat.succ_le_succ h.running_le
  · rw [hcurrent, hcounts, List.length_append, List.length_singleton, PoolCounts.launched,
      Nat.add_right_comm]
    exact Nat.succ_le_succ h.le_running

theorem dispatch (h : e.Kept) {pool : Pool ι ο} (hact : e.pool.dispatch? = some pool) :
    (e.note pool .dispatch).Kept := by
  obtain ⟨b, t, rest, hb, hqueue, -, -, rfl⟩ := Pool.dispatch?_eq_some_iff.mp hact
  have hsince := h.since_le b hb
  refine h.depart (f := ⟨b.dispatched, t⟩) hsince ?_ hqueue ?_ rfl
  · intro c hc
    rw [← Option.some.inj hc]
    exact Nat.le_succ_of_le hsince
  · rw [Pool.flights_of_batch hb]
    rfl

theorem finish (h : e.Kept) {pool : Pool ι ο} (hact : e.pool.act? .finish = some pool) :
    (e.note pool .finish).Kept := by
  obtain ⟨⟨results, q⟩, hfinish, rfl⟩ := Option.map_eq_some_iff.mp hact
  obtain ⟨b, hb, hflights, -, -, rfl⟩ := Pool.finish?_eq_some_iff.mp hfinish
  refine h.of_same rfl rfl ?_ ?_ (.inl rfl)
  · rw [Pool.flights_of_batch hb, hflights]
    rfl
  · intro b' hb'
    cases hb'

/-! ## 2. Tasks that end -/

/-- Tasks that end go from the flights to one of two places. -/
theorem perm_ended {fs : List (Flight ι ο)} (ended : Flight ι ο → Bool) (failing : Bool)
    (completed failed : List (Task ι ο)) :
    ((fs.filter fun f => !ended f).map Flight.task ++
      ((if failing then completed else completed ++ (fs.filter ended).map Flight.task) ++
        if failing then failed ++ (fs.filter ended).map Flight.task else failed)).Perm
      (fs.map Flight.task ++ (completed ++ failed)) := by
  have hsplit := ((List.filter_append_perm ended fs).map Flight.task).append_right
    (completed ++ failed)
  rw [List.map_append] at hsplit
  exact (perm_settled _ _ completed failed failing).trans hsplit

/-- **Tasks that end are counted, whatever epoch they are from.** -/
theorem settle (h : e.Kept) {pool : Pool ι ο} {ended : Flight ι ο → Bool} (failing : Bool)
    (time : Nat) (hqueue : pool.queue = e.pool.queue)
    (hnumbers : ∀ b, pool.batch = some b → e.since ≤ b.dispatched)
    (hflights : pool.flights = e.pool.flights.filter fun f => !ended f)
    {n : Nat} (hn : (e.pool.flights.filter ended).length = n)
    (hcounts : pool.counts = ⟨e.pool.counts.total, e.pool.counts.running - n,
      if failing then e.pool.counts.completed else e.pool.counts.completed + n,
      if failing then e.pool.counts.failed + n else e.pool.counts.failed, time⟩) :
    (e.settle pool ended failing).Kept := by
  have hcurrent : (e.settle pool ended failing).current = e.current.filter fun f => !ended f := by
    show pool.flights.filter (isCurrent e.since) = _
    rw [hflights, List.filter_comm]
    rfl
  have holder : (e.settle pool ended failing).older = e.older.filter fun f => !ended f := by
    show pool.flights.filter (fun f => !isCurrent e.since f) = _
    rw [hflights, List.filter_comm]
    rfl
  -- how many of the tasks that end are from which epoch
  have hown := e.current.length_eq_length_filter_add ended
  have hsum : (e.current.filter ended).length + (e.older.filter ended).length = n := by
    have hparts := (e.pool.flights.filter ended).length_eq_length_filter_add (isCurrent e.since)
    rw [hn, List.filter_comm, List.filter_comm (fun f => !isCurrent e.since f)] at hparts
    exact hparts.symm
  have hless := h.running_le
  have hmore := h.le_running
  have hlate : (e.settle pool ended failing).lateCompleted.length +
      (e.settle pool ended failing).lateFailed.length =
        e.lateCompleted.length + e.lateFailed.length + (e.older.filter ended).length := by
    unfold Epoch.settle
    cases failing <;> simp <;> omega
  refine ⟨hnumbers, ?_, ?_, ?_, ?_, ?_, ?_, ?_⟩
  · rw [hcurrent]
    show (pool.queue ++ _).Perm _
    rw [hqueue]
    exact ((perm_ended ended failing e.completed e.failed).append_left _).trans h.tasks
  · rw [holder]
    exact (perm_ended ended failing e.lateCompleted e.lateFailed).trans h.leftOver
  · show pool.counts.total = _
    rw [hcounts]
    exact h.total
  · have hcompleted := h.completed
    show pool.counts.completed = _
    rw [hcounts]
    unfold Epoch.settle
    cases failing <;> simp <;> omega
  · have hfailed := h.failed
    show pool.counts.failed = _
    rw [hcounts]
    unfold Epoch.settle
    cases failing <;> simp <;> omega
  · rw [hcurrent]
    show pool.counts.running ≤ _
    rw [hcounts]
    dsimp only
    omega
  · rw [hcurrent, hlate]
    show _ ≤ pool.counts.running + _
    rw [hcounts]
    dsimp only
    omega

/-- One task in flight ends. -/
theorem land (h : e.Kept) {b b' : Batch ι ο} {f : Flight ι ο} {limit : Nat}
    (hb : e.pool.batch = some b) (hsound : b.Sound limit) (hf : f ∈ b.flights) {pool : Pool ι ο}
    (hbatch : pool.batch = some b') (hqueue : pool.queue = e.pool.queue)
    (hflights : b'.flights = b.flights.filter fun g => g.number ≠ f.number)
    (hdispatched : b'.dispatched = b.dispatched) (failing : Bool) (time : Nat)
    (hcounts : pool.counts = ⟨e.pool.counts.total, e.pool.counts.running - 1,
      if failing then e.pool.counts.completed else e.pool.counts.completed + 1,
      if failing then e.pool.counts.failed + 1 else e.pool.counts.failed, time⟩) :
    (e.settle pool (fun g => g.number = f.number) failing).Kept := by
  refine h.settle failing time hqueue ?_ ?_ ?_ hcounts
  · intro c hc
    rw [← Option.some.inj (hbatch.symm.trans hc), hdispatched]
    exact h.since_le b hb
  · rw [Pool.flights_of_batch hbatch, Pool.flights_of_batch hb, hflights]
    exact List.filter_congr fun g _ => by simp
  · rw [Pool.flights_of_batch hb, Batch.Sound.filter_number hsound.nodup hf]
    rfl

theorem cancel (h : e.Kept) : (e.note e.pool.cancel .cancel).Kept := by
  cases hb : e.pool.batch with
  | none =>
    have hnone := Pool.flights_of_idle hb
    have hsame := Pool.cancel_of_idle hb
    refine h.settle true e.pool.counts.time (by rw [hsame])
      (by rw [hsame]; exact h.since_le) ?_ (n := 0) ?_ ?_
    · rw [hsame, hnone]
      rfl
    · rw [hnone]
      rfl
    · rw [hsame]
      rfl
  | some b =>
    have hflights := Pool.flights_of_batch hb
    have hpool := Pool.cancel_of_batch hb
    refine h.settle true e.pool.counts.time (by rw [hpool]) ?_ ?_ (n := b.flights.length) ?_ ?_
    · intro c hc
      rw [hpool] at hc
      cases hc
    · rw [hpool]
      symm
      simp [Pool.flights]
    · rw [hflights]
      simp
    · rw [hpool]
      rfl

end Kept

/-! ## 3. Steps and runs -/

/-- **Every action keeps the invariant.** -/
theorem kept_act? (h : e.Kept) {limit : Nat}
    (hsound : ∀ b, e.pool.batch = some b → b.Sound limit) (hact : e.act? a = some e') :
    e'.Kept := by
  obtain ⟨pool, hpool, rfl⟩ := act?_eq_some_iff.mp hact
  cases a with
  | add task =>
    obtain rfl := Option.some.inj hpool
    exact h.add task
  | listen listener =>
    obtain rfl := Option.some.inj hpool
    exact h.of_same rfl rfl rfl h.since_le (.inl rfl)
  | stop =>
    obtain rfl := Option.some.inj hpool
    exact h.of_same rfl rfl rfl h.since_le (.inl rfl)
  | reset =>
    obtain rfl := Option.some.inj hpool
    exact Kept.reset fun b hb => (hsound b hb).numbers_lt
  | execute => exact h.execute hpool
  | dispatch => exact h.dispatch hpool
  | join number o took =>
    obtain ⟨b, f, hb, hf, rfl⟩ := Pool.join?_eq_some_iff.mp hpool
    obtain rfl : f.number = number := by simpa using List.find?_some hf
    refine h.land hb (hsound b hb) (List.mem_of_find?_eq_some hf) (by rfl) (by rfl) (by rfl)
      (by rfl) o.isFailure (e.pool.counts.landed.record o took).time ?_
    show e.pool.counts.landed.record o took = _
    unfold PoolCounts.record
    cases o.isFailure <;> rfl
  | lose number =>
    obtain ⟨b, f, hb, hf, rfl⟩ := Pool.lose?_eq_some_iff.mp hpool
    obtain rfl : f.number = number := by simpa using List.find?_some hf
    exact h.land hb (hsound b hb) (List.mem_of_find?_eq_some hf) (by rfl) (by rfl) (by rfl)
      (by rfl) true e.pool.counts.time (by rfl)
  | finish => exact h.finish hpool
  | cancel =>
    obtain rfl := Option.some.inj hpool
    exact h.cancel

/-- The epoch after a run is kept, its pool is the pool after that run, and its tasks are
those added since the last reset. -/
theorem kept_run? (hrun : (new options).run? as = some e) :
    e.Kept ∧ (Pool.new options).run? as = some e.pool ∧
      e.added = as.foldl addedSince [] := by
  induction as using List.reverseRecOn generalizing e with
  | nil =>
    obtain rfl := Option.some.inj hrun
    exact ⟨kept_new options, rfl, rfl⟩
  | append_singleton as a ih =>
    obtain ⟨m, hm, hact⟩ := Machine.run?_concat_eq_some_iff.mp hrun
    obtain ⟨hkept, hpool, hadded⟩ := ih hm
    obtain ⟨r, hr, hrpool⟩ := Roster.exists_run? hpool
    have hheld := Roster.held_run? (Roster.held_new options) hr
    refine ⟨kept_act? hkept (hrpool ▸ hheld.sound) hact, ?_, ?_⟩
    · obtain ⟨pool, hstep, rfl⟩ := act?_eq_some_iff.mp hact
      refine Pool.run?_append_eq_some_iff.mpr ⟨m.pool, hpool, ?_⟩
      rw [pool_note]
      exact Pool.run?_cons_eq_some_iff.mpr ⟨pool, hstep, rfl⟩
    · obtain ⟨pool, -, rfl⟩ := act?_eq_some_iff.mp hact
      rw [List.foldl_append, ← hadded]
      cases a <;> rfl

/-- What is left over is settled by the last reset. -/
theorem leftOver_run? (has : ∀ a ∈ as, resets a = false) (hrun : e.run? as = some e') :
    e'.leftOver = e.leftOver := by
  induction as generalizing e with
  | nil =>
    obtain rfl := Option.some.inj hrun
    rfl
  | cons a as ih =>
    obtain ⟨m, hact, hrest⟩ := Option.bind_eq_some_iff.mp hrun
    obtain ⟨pool, -, rfl⟩ := act?_eq_some_iff.mp hact
    rw [ih (fun x hx => has x (List.mem_cons_of_mem _ hx)) hrest]
    have hkeeps := has a (List.mem_cons_self ..)
    cases a with
    | reset => cases hkeeps
    | _ => rfl

/-- The tasks left over are those that were in flight at the last reset. -/
theorem leftOver_of_reset {before after : List (PoolAction ι ο)} {q : Pool ι ο}
    (hafter : ∀ a ∈ after, resets a = false) (hq : (Pool.new options).run? before = some q)
    (hrun : (new options).run? (before ++ .reset :: after) = some e) :
    e.leftOver = q.flights.map Flight.task := by
  obtain ⟨m, hm, hrest⟩ := Machine.run?_append_eq_some_iff.mp hrun
  obtain ⟨m', hact, hlater⟩ := Option.bind_eq_some_iff.mp hrest
  obtain ⟨pool, -, rfl⟩ := act?_eq_some_iff.mp hact
  have hpool : m.pool = q := Option.some.inj ((kept_run? hm).2.1.symm.trans hq)
  rw [leftOver_run? hafter hlater, ← hpool]
  rfl

/-! ## 4. What a pool tells -/

/-- The sum of the places against the total: the late tasks are too many, as far as they did not
take a running task off. -/
theorem Kept.accounted (h : e.Kept) :
    e.pool.tally.accounted + e.current.length =
      e.pool.tally.total + e.late.length + e.pool.tally.running := by
  have htasks := h.tasks.length_eq
  simp only [List.length_append, List.length_map] at htasks
  unfold PoolTally.accounted Pool.tally PoolCounts.tally late
  rw [h.total, h.completed, h.failed, List.length_append]
  dsimp only
  omega

/-- **What is counted after a reset.**  After every run of a new pool, whatever the order of
additions, listeners, stops, batches, dispatches, joins, losses, ends, cancellations and
resets, in the middle of a batch or not, and with `e` the epoch of the run:

* each task added since the last reset is in the queue, in flight, completed or failed;
* each task that was in flight at the last reset is still in flight, or late;
* the total is that of the tasks added since, while completed and failed tasks are counted
  together with the late ones;
* no more tasks count as running than are in flight of those added since, and they may be
  too few by the number of late tasks;
* the places add up to the total or to more, by at most the number of late tasks;
* they add up to no more than the total, and all the tasks that were added since and are in
  flight count as running, exactly if no task is late. -/
theorem counts_since_reset {p : Pool ι ο} (hrun : (Pool.new options).run? as = some p) :
    ∃ e : Epoch ι ο, (new options).run? as = some e ∧ e.pool = p ∧
      e.added = as.foldl addedSince [] ∧
      (p.queue ++ (e.current.map Flight.task ++ (e.completed ++ e.failed))).Perm e.added ∧
      (e.older.map Flight.task ++ e.late).Perm e.leftOver ∧
      (∀ before after q, as = before ++ .reset :: after →
        (∀ a ∈ after, resets a = false) → (Pool.new options).run? before = some q →
        e.leftOver = q.flights.map Flight.task) ∧
      ((∀ a ∈ as, resets a = false) → e.leftOver = []) ∧
      p.tally.total = e.added.length ∧
      p.tally.completed = e.completed.length + e.lateCompleted.length ∧
      p.tally.failed = e.failed.length + e.lateFailed.length ∧
      p.tally.running ≤ e.current.length ∧
      e.current.length ≤ p.tally.running + e.late.length ∧
      p.tally.total ≤ p.tally.accounted ∧
      p.tally.accounted ≤ p.tally.total + e.late.length ∧
      (p.tally.accounted ≤ p.tally.total ∧ p.tally.running = e.current.length ↔ e.late = []) := by
  obtain ⟨e, he, rfl⟩ := exists_run? (e := new options) hrun
  obtain ⟨hkept, -, hadded⟩ := kept_run? he
  have hlate : e.late.length = e.lateCompleted.length + e.lateFailed.length := List.length_append
  have hsum := hkept.accounted
  have hless : e.pool.tally.running ≤ e.current.length := hkept.running_le
  have hmore : e.current.length ≤ e.pool.tally.running + e.late.length :=
    hlate ▸ hkept.le_running
  refine ⟨e, he, rfl, hadded, hkept.tasks, hkept.leftOver, ?_, fun has => leftOver_run? has he,
    hkept.total, hkept.completed, hkept.failed, hless, hmore, by omega, by omega, ?_⟩
  · rintro before after q rfl hafter hq
    exact leftOver_of_reset hafter hq he
  · rw [← List.length_eq_zero_iff]
    omega

/-- Two at a time.  The pool is reset while two tasks are in flight, and another one is added.
The first one ends and makes room for the new one; then the second one ends.  Both count as
completed, which is more than the total, and the second has taken the new one off the running
tasks although it is in flight. -/
theorem counts_since_reset_late :
    let task : String → Task Unit Nat := fun id => ⟨id, (), fun _ => ⟨[], .value 7⟩⟩
    let as : List (PoolAction Unit Nat) :=
      [.add (task "a"), .add (task "c"), .execute, .dispatch, .dispatch, .reset, .add (task "b"),
       .join 0 (.output 7) 1, .dispatch, .join 1 (.output 7) 2]
    ∃ p, (Pool.new ⟨2, false, none⟩).run? as = some p ∧ p.tally = ⟨1, 0, 0, 2, 0⟩ ∧
      p.flights.map (fun f => f.task.id) = ["b"] ∧
      ∃ e : Epoch Unit Nat, e.pool = p ∧ e.late = [task "a", task "c"] ∧ e.current.length = 1 ∧
        ¬ (p.tally.accounted ≤ p.tally.total ∧ p.tally.running = e.current.length) := by
  intro task as
  have hrun : ∃ p e, (Pool.new ⟨2, false, none⟩).run? as = some p ∧
      (new ⟨2, false, none⟩).run? as = some e ∧ p.tally = ⟨1, 0, 0, 2, 0⟩ ∧
      p.flights.map (fun f => f.task.id) = ["b"] ∧ e.late = [task "a", task "c"] ∧
      e.current.length = 1 :=
    ⟨_, _, rfl, rfl, rfl, rfl, rfl, rfl⟩
  obtain ⟨p, e, hp, he, htally, hflights, hlate, hcurrent⟩ := hrun
  obtain ⟨e', he', hpool, -, -, -, -, -, -, -, -, -, -, -, -, htrue⟩ := counts_since_reset hp
  obtain rfl := Option.some.inj (he.symm.trans he')
  refine ⟨p, hp, htally, hflights, e, hpool, hlate, hcurrent, fun h => ?_⟩
  rw [htrue.mp h] at hlate
  cases hlate

end Epoch
end AnalysisRunner
