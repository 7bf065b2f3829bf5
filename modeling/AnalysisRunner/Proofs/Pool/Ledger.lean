import Mathlib.Algebra.Group.Nat.Defs
import AnalysisRunner.Proofs.Pool.Calls

/-!
# Where every task is

A pool counts its tasks, but it does not name them: two tasks may even be equal, with
one name and one input.  A *ledger* keeps a pool, with its calls, and beside it the identity of
every task.  A task gets the next serial number when it is added, and the ledger moves serial
numbers from place to place as the calls go on, move by move.

    queue --> held --> flying --> landed --> completed or failed
                       flying --> failed                             given up

A task is *in flight* while it is held, flying or landed.  It counts as running while it is
flying.  So the number of running tasks lags behind by one while a task is held, which was taken
and is not counted yet, or has landed, which is no longer counted and not recorded yet.

A ledger is kept over runs in which the pool is reset only while no call runs a batch.  A reset
takes two moves.  The first one empties the queue, and the ledger begins anew.  Until the
second one the counts are those of before, and of what is added since; and what is added since is
forgotten by the second one (`missed`).

`Balanced` is the invariant.  It ties the places of the ledger to what the pool holds, task by
task, and to what the pool counts, and it says that the places share out the serial numbers: their
lists together are a rearrangement of `0, …, n - 1`.  It holds of a new pool (`balanced_new`) and
is kept by every move (`balanced_note`), so it holds at every moment of every run
(`balanced_run?`).
-/

namespace AnalysisRunner

/-- A pool with its calls, and the places of its tasks, by serial number. -/
structure Ledger (ι ο : Type) where
  calls : Calls ι ο
  /-- The tasks added since the queue was last emptied by a reset; the place of a task in this
  list is its serial number. -/
  added : List (Task ι ο)
  /-- How many of these the counts have forgotten. -/
  missed : Nat
  /-- What the counts still hold of the time before. -/
  stale : PoolCounts
  queued : List Nat
  /-- The task that was taken from the queue and does not count as running. -/
  held : List Nat
  /-- The tasks that count as running: the number within the batch, and the serial number. -/
  flying : List (Nat × Nat)
  /-- The task that has ended and is not recorded. -/
  landed : List Nat
  completed : List Nat
  failed : List Nat
  /-- The tasks that were taken from the queue, in that order. -/
  dispatched : List Nat

namespace Ledger

variable {ι ο : Type} {l l' : Ledger ι ο} {m : PoolMove ι ο} {ms : List (PoolMove ι ο)}
  {limit : Nat}

/-- The ledger of a new pool. -/
def new (options : PoolOptions) : Ledger ι ο :=
  ⟨.new options, [], 0, .zero, [], [], [], [], [], [], []⟩

/-- The tasks in flight. -/
def underway (l : Ledger ι ο) : List Nat :=
  l.held ++ l.flying.map Prod.snd ++ l.landed

/-- The serial numbers in flight under a number of the batch. -/
def landing (l : Ledger ι ο) (number : Nat) : List Nat :=
  (l.flying.filter fun x => x.1 = number).map Prod.snd

/-- What the next step of the call that runs a batch does to the places. -/
def advance (l : Ledger ι ο) (calls : Calls ι ο) : Ledger ι ο :=
  match l.calls.stage with
  | .allowed =>
    { l with
      calls
      queued := l.queued.drop 1
      held := l.queued.take 1
      dispatched := l.dispatched ++ l.queued.take 1 }
  | .holding _ =>
    { l with
      calls
      held := []
      flying := l.flying ++
        l.held.map fun s => ((l.calls.pool.batch.map Batch.dispatched).getD 0, s) }
  | .settling _ landing =>
    { l with
      calls
      landed := []
      completed := if landing.isFailure then l.completed else l.completed ++ l.landed
      failed := if landing.isFailure then l.failed ++ l.landed else l.failed }
  | _ => { l with calls }

/-- What a move that was done does to the places. -/
def note (l : Ledger ι ο) (calls : Calls ι ο) : PoolMove ι ο → Ledger ι ο
  | .add task =>
    { l with calls, added := l.added ++ [task], queued := l.queued ++ [l.added.length] }
  | .clearQueue => ⟨calls, [], 0, l.calls.pool.counts, [], [], [], [], [], [], []⟩
  | .clearCounts => { l with calls, missed := l.added.length, stale := .zero }
  | .advance => l.advance calls
  | .land number _ =>
    { l with
      calls
      flying := l.flying.filter fun x => x.1 ≠ number
      landed := l.landing number }
  | .cancel => { l with calls, flying := [], failed := l.failed ++ l.flying.map Prod.snd }
  | .listen _ | .stop | .enter | .leave => { l with calls }

/-- Whether a move lets a reset and a batch overlap. -/
def overlaps (c : Calls ι ο) : PoolMove ι ο → Bool
  | .clearQueue => c.pool.isProcessing
  | .enter => c.clearing ≠ 0
  | _ => false

/-- The ledger after a move, if the move is possible and lets no reset and batch overlap. -/
def step? (l : Ledger ι ο) (m : PoolMove ι ο) : Option (Ledger ι ο) :=
  if overlaps l.calls m then none else (l.calls.step? m).map fun calls => l.note calls m

/-- The ledger after several moves. -/
def run? (l : Ledger ι ο) (ms : List (PoolMove ι ο)) : Option (Ledger ι ο) :=
  Machine.run? step? l ms

/-- The tasks that a run adds and that no later reset takes from the queue. -/
def addedSince (tasks : List (Task ι ο)) : PoolMove ι ο → List (Task ι ο)
  | .add task => tasks ++ [task]
  | .clearQueue => []
  | _ => tasks

/-! ## 1. The invariant -/

/-- The places are those of the pool, they share out the serial numbers, and the counts are their
sizes, up to what is stale and missed. -/
structure Balanced (l : Ledger ι ο) : Prop where
  queue_eq : l.calls.pool.queue.map some = l.queued.map (l.added[·]?)
  held_eq : l.calls.stage.held.map some = l.held.map (l.added[·]?)
  flights_eq : l.calls.pool.flights.map (fun f => (f.number, some f.task)) =
    l.flying.map fun x => (x.1, l.added[x.2]?)
  landed_eq : l.calls.stage.landed.map some = l.landed.map (l.added[·]?)
  places : (l.queued ++ l.underway ++ l.completed ++ l.failed).Perm (List.range l.added.length)
  left_queue : l.dispatched.Perm (l.underway ++ l.completed ++ l.failed)
  missed_le : l.missed ≤ l.added.length
  total : l.calls.pool.counts.total = l.stale.total + (l.added.length - l.missed)
  running : l.calls.pool.counts.running = l.stale.running + l.flying.length
  completed : l.calls.pool.counts.completed = l.stale.completed + l.completed.length
  failed : l.calls.pool.counts.failed = l.stale.failed + l.failed.length
  /-- While a reset is halfway through, nothing has happened since but additions. -/
  clearing : l.calls.clearing ≠ 0 →
    l.calls.pool.batch = none ∧ l.dispatched = []
  /-- Otherwise the counts have forgotten the time before. -/
  cleared : l.calls.clearing = 0 → l.stale = .zero

namespace Balanced

/-- Every serial number that has a place belongs to a task that was added. -/
theorem lt_length (h : l.Balanced) {s : Nat}
    (hs : s ∈ l.queued ++ l.underway ++ l.completed ++ l.failed) : s < l.added.length :=
  List.mem_range.mp (h.places.subset hs)

theorem length_queued (h : l.Balanced) : l.calls.pool.queue.length = l.queued.length := by
  have hlen := congrArg List.length h.queue_eq
  rwa [List.length_map, List.length_map] at hlen

theorem length_held (h : l.Balanced) : l.held.length = l.calls.stage.held.length := by
  have hlen := congrArg List.length h.held_eq
  rwa [List.length_map, List.length_map, eq_comm] at hlen

theorem length_landed (h : l.Balanced) : l.landed.length = l.calls.stage.landed.length := by
  have hlen := congrArg List.length h.landed_eq
  rwa [List.length_map, List.length_map, eq_comm] at hlen

theorem length_flying (h : l.Balanced) : l.flying.length = l.calls.pool.flights.length := by
  have hlen := congrArg List.length h.flights_eq
  rwa [List.length_map, List.length_map, eq_comm] at hlen

/-- Where nothing was taken from the queue, nothing is in another place. -/
theorem nothing_left_queue (h : l.Balanced) (hnone : l.dispatched = []) :
    l.held = [] ∧ l.flying = [] ∧ l.landed = [] ∧ l.completed = [] ∧ l.failed = [] := by
  have hlen := h.left_queue.length_eq
  rw [hnone, underway] at hlen
  simp only [List.length_nil, List.length_append, List.length_map] at hlen
  refine ⟨?_, ?_, ?_, ?_, ?_⟩ <;> exact List.length_eq_zero_iff.mp (by omega)

/-- The tasks of serial numbers that were given out do not change when one more is added. -/
theorem map_getElem?_append {tasks : List (Task ι ο)} {task : Task ι ο} {xs : List Nat}
    (h : ∀ s ∈ xs, s < tasks.length) :
    xs.map ((tasks ++ [task])[·]?) = xs.map (tasks[·]?) := by
  apply List.map_congr_left
  intro s hs
  exact List.getElem?_append_left (h s hs)

/-- A number of the batch that is in flight stands for one task. -/
theorem landing_eq (h : l.Balanced) {b : Batch ι ο} (hb : l.calls.pool.batch = some b)
    (hsound : b.Sound limit) {f : Flight ι ο} (hf : f ∈ b.flights) :
    [some f.task] = (l.landing f.number).map (l.added[·]?) := by
  have heq := congrArg (List.filter fun x : Nat × Option (Task ι ο) => x.1 = f.number) h.flights_eq
  rw [Pool.flights_of_batch hb, List.filter_map, List.filter_map] at heq
  have hone : b.flights.filter ((fun x : Nat × Option (Task ι ο) => decide (x.1 = f.number)) ∘
      fun f => (f.number, some f.task)) = [f] := Batch.Sound.filter_number hsound.nodup hf
  rw [hone] at heq
  have htasks := congrArg (List.map Prod.snd) heq
  rw [List.map_map, List.map_map] at htasks
  rw [landing, List.map_map]
  exact htasks

/-- Taking a number out of the tasks in flight splits them in two. -/
theorem perm_landing (l : Ledger ι ο) (number : Nat) :
    ((l.flying.filter fun x => x.1 ≠ number).map Prod.snd ++ l.landing number).Perm
      (l.flying.map Prod.snd) := by
  rw [landing, ← List.map_append]
  refine List.Perm.map _ ?_
  have hsplit := List.filter_append_perm (fun x : Nat × Nat => decide (x.1 = number)) l.flying
  have hneg : (l.flying.filter fun x => !decide (x.1 = number)) =
      l.flying.filter fun x => decide (x.1 ≠ number) := by
    apply List.filter_congr
    intro x _
    simp
  rw [hneg] at hsplit
  exact List.perm_append_comm.trans hsplit

theorem clearing_eq_zero (h : l.Balanced) {b : Batch ι ο} (hb : l.calls.pool.batch = some b) :
    l.calls.clearing = 0 := by
  by_contra hne
  cases (h.clearing hne).1.symm.trans hb

/-! ## 2. Every move keeps it -/

/-- A move that touches neither queue, counts, flights nor what is held or has landed. -/
theorem of_same (h : l.Balanced) {calls : Calls ι ο}
    (hqueue : calls.pool.queue = l.calls.pool.queue)
    (hcounts : calls.pool.counts = l.calls.pool.counts)
    (hflights : calls.pool.flights = l.calls.pool.flights)
    (hheld : calls.stage.held = l.calls.stage.held)
    (hlanded : calls.stage.landed = l.calls.stage.landed)
    (hclearing : calls.clearing = l.calls.clearing)
    (hbatch : calls.clearing ≠ 0 → calls.pool.batch = none) : Balanced { l with calls } where
  queue_eq := by
    rw [hqueue]
    exact h.queue_eq
  held_eq := by
    rw [hheld]
    exact h.held_eq
  flights_eq := by
    rw [hflights]
    exact h.flights_eq
  landed_eq := by
    rw [hlanded]
    exact h.landed_eq
  places := h.places
  left_queue := h.left_queue
  missed_le := h.missed_le
  total := by
    rw [hcounts]
    exact h.total
  running := by
    rw [hcounts]
    exact h.running
  completed := by
    rw [hcounts]
    exact h.completed
  failed := by
    rw [hcounts]
    exact h.failed
  clearing := fun hne => ⟨hbatch hne, (h.clearing (hclearing ▸ hne)).2⟩
  cleared := fun hzero => h.cleared (hclearing ▸ hzero)

theorem add (h : l.Balanced) (task : Task ι ο) :
    (l.note { l.calls with pool := l.calls.pool.add task } (.add task)).Balanced := by
  have hold : ∀ xs : List Nat, (∀ s ∈ xs, s ∈ l.queued ++ l.underway ++ l.completed ++ l.failed) →
      xs.map ((l.added ++ [task])[·]?) = xs.map (l.added[·]?) :=
    fun xs hxs => map_getElem?_append fun s hs => h.lt_length (hxs s hs)
  constructor
  · show (l.calls.pool.queue ++ [task]).map some =
      (l.queued ++ [l.added.length]).map ((l.added ++ [task])[·]?)
    rw [List.map_append, List.map_append, h.queue_eq, hold l.queued (by simp +contextual)]
    simp
  · exact h.held_eq.trans (hold l.held (by simp +contextual [underway])).symm
  · refine h.flights_eq.trans (List.map_congr_left fun x hx => ?_)
    have hlt : x.2 < l.added.length := h.lt_length (by
      have hmem : x.2 ∈ l.flying.map Prod.snd := List.mem_map_of_mem hx
      simp only [underway, List.mem_append, hmem, true_or, or_true])
    show (x.1, l.added[x.2]?) = (x.1, (l.added ++ [task])[x.2]?)
    rw [List.getElem?_append_left hlt]
  · exact h.landed_eq.trans (hold l.landed (by simp +contextual [underway])).symm
  · show (l.queued ++ [l.added.length] ++ l.underway ++ l.completed ++ l.failed).Perm
      (List.range (l.added ++ [task]).length)
    rw [List.length_append, List.length_singleton, List.range_succ]
    refine List.Perm.trans ?_ (h.places.append_right [l.added.length])
    simp only [List.append_assoc]
    refine List.Perm.append_left l.queued ?_
    exact List.perm_append_comm.trans (by simp only [List.append_assoc]; rfl)
  · exact h.left_queue
  · exact Nat.le_trans h.missed_le (by simp [note])
  · show l.calls.pool.counts.total + 1 = l.stale.total + ((l.added ++ [task]).length - l.missed)
    have hmissed := h.missed_le
    rw [h.total, List.length_append, List.length_singleton]
    omega
  · exact h.running
  · exact h.completed
  · exact h.failed
  · exact h.clearing
  · exact h.cleared

theorem clearQueue (hidle : l.calls.pool.batch = none) (hstage : l.calls.stage = .idle)
    {calls : Calls ι ο} (hcalls : calls = { l.calls with
      pool := l.calls.pool.clearQueue, clearing := l.calls.clearing + 1 }) :
    (l.note calls .clearQueue).Balanced := by
  subst hcalls
  refine ⟨rfl, ?_, ?_, ?_, List.Perm.refl _, List.Perm.refl _, Nat.le_refl _, rfl, rfl, rfl, rfl,
    fun _ => ⟨hidle, rfl⟩, fun hzero => ?_⟩
  · show l.calls.stage.held.map some = []
    rw [hstage]
    rfl
  · show l.calls.pool.clearQueue.flights.map _ = []
    rw [Pool.flights_of_idle (p := l.calls.pool.clearQueue) hidle]
    rfl
  · show l.calls.stage.landed.map some = []
    rw [hstage]
    rfl
  · cases hzero

theorem clearCounts (h : l.Balanced) (hclearing : l.calls.clearing ≠ 0) {calls : Calls ι ο}
    (hcalls : calls = { l.calls with
      pool := l.calls.pool.clearCounts, clearing := l.calls.clearing - 1 }) :
    (l.note calls .clearCounts).Balanced := by
  obtain ⟨hidle, hnone⟩ := h.clearing hclearing
  obtain ⟨-, hflying, -, hcompleted, hfailed⟩ := h.nothing_left_queue hnone
  subst hcalls
  refine ⟨h.queue_eq, h.held_eq, h.flights_eq, h.landed_eq, h.places, h.left_queue,
    Nat.le_refl _, ?_, ?_, ?_, ?_, fun _ => ⟨hidle, hnone⟩, fun _ => rfl⟩
  · show 0 = 0 + (l.added.length - l.added.length)
    rw [Nat.sub_self]
  · show 0 = 0 + l.flying.length
    rw [hflying]
    rfl
  · show 0 = 0 + l.completed.length
    rw [hcompleted]
    rfl
  · show 0 = 0 + l.failed.length
    rw [hfailed]
    rfl

/-- The call takes the first task of the queue. -/
theorem take (h : l.Balanced) (hsound : l.calls.Sound limit) (hstage : l.calls.stage = .allowed)
    {task : Task ι ο} {rest : List (Task ι ο)} (hqueue : l.calls.pool.queue = task :: rest) :
    (l.advance { l.calls with
      pool := { l.calls.pool with queue := rest }, stage := .holding task }).Balanced := by
  obtain ⟨b, hb⟩ := hsound.exists_batch (by rw [hstage]; simp)
  -- the first serial number in the queue is that of the first task
  obtain ⟨s, queued, hqueued⟩ : ∃ s queued, l.queued = s :: queued := by
    have hlen := h.length_queued
    rw [hqueue] at hlen
    exact List.exists_cons_of_length_eq_add_one hlen.symm
  have hheads := h.queue_eq
  rw [hqueue, hqueued, List.map_cons, List.map_cons] at hheads
  obtain ⟨hhead, htail⟩ := List.cons.inj hheads
  have hheld : l.held = [] := by
    have hlen := h.length_held
    rw [hstage] at hlen
    exact List.length_eq_zero_iff.mp hlen
  have hlanded := h.landed_eq
  rw [hstage] at hlanded
  simp only [advance, hstage, hqueued, List.drop_succ_cons, List.drop_zero, List.take_succ_cons,
    List.take_zero]
  refine ⟨htail, ?_, h.flights_eq, hlanded, ?_, ?_, h.missed_le, h.total, h.running, h.completed,
    h.failed, fun hne => absurd (h.clearing_eq_zero hb) hne, h.cleared⟩
  · exact congrArg (fun x => [x]) hhead
  · refine List.Perm.trans ?_ h.places
    rw [hqueued, underway, underway, hheld]
    simp only [List.append_assoc, List.cons_append, List.nil_append]
    exact List.perm_middle
  · refine (h.left_queue.append_right [s]).trans ?_
    rw [underway, underway, hheld]
    simp only [List.append_assoc, List.cons_append, List.nil_append]
    simp only [← List.append_assoc]
    exact List.perm_append_comm

/-- The task that the call holds counts as running. -/
theorem launch (h : l.Balanced) (hsound : l.calls.Sound limit) {task : Task ι ο}
    (hstage : l.calls.stage = .holding task) :
    (l.advance { l.calls with pool := l.calls.pool.launch task, stage := .deciding }).Balanced := by
  obtain ⟨b, hb⟩ := hsound.exists_batch (by rw [hstage]; simp)
  have hheld := h.held_eq
  have hlanded := h.landed_eq
  rw [hstage] at hheld hlanded
  obtain ⟨s, hs⟩ : ∃ s, l.held = [s] := by
    have hlen := h.length_held
    rw [hstage] at hlen
    exact List.length_eq_one_iff.mp hlen
  have htask : some task = l.added[s]? := by
    rw [hs] at hheld
    exact (List.cons.inj hheld).1
  have hflights := h.flights_eq
  rw [Pool.flights_of_batch hb] at hflights
  simp only [advance, hstage, hs, hb, Pool.launch_of_batch hb, Option.map_some, Option.getD_some,
    List.map_cons, List.map_nil]
  refine ⟨h.queue_eq, rfl, ?_, hlanded, ?_, ?_, h.missed_le, h.total, ?_, h.completed, h.failed,
    fun hne => absurd (h.clearing_eq_zero hb) hne, h.cleared⟩
  · show (b.flights ++ [(⟨b.dispatched, task⟩ : Flight ι ο)]).map _ = _
    rw [List.map_append, List.map_append, hflights, List.map_singleton, List.map_singleton, htask]
  · refine List.Perm.trans ?_ h.places
    rw [underway, underway, hs]
    simp only [List.map_append, List.map_cons, List.map_nil, List.nil_append, List.append_assoc,
      List.cons_append]
    exact List.Perm.append_left _ List.perm_middle
  · refine h.left_queue.trans ?_
    rw [underway, underway, hs]
    simp only [List.map_append, List.map_cons, List.map_nil, List.nil_append, List.append_assoc,
      List.cons_append]
    exact List.perm_middle.symm
  · show l.calls.pool.counts.running + 1 = _
    rw [h.running, List.length_append]
    rfl

/-- A task in flight has ended: it counts as running no more. -/
theorem land (h : l.Balanced) (hsound : l.calls.Sound limit) {why : Pause} {number : Nat}
    {landing : Landing ο} {b : Batch ι ο} {f : Flight ι ο} (hstage : l.calls.stage = .waiting why)
    (hb : l.calls.pool.batch = some b)
    (hf : b.flights.find? (fun f => f.number = number) = some f) :
    (l.note { l.calls with
      pool := { l.calls.pool with
        counts := l.calls.pool.counts.landed
        batch := some { b with flights := b.flights.filter fun f => f.number ≠ number } }
      stage := .settling f landing } (.land number landing)).Balanced := by
  have hnumber : f.number = number := by simpa using List.find?_some hf
  have hlanding := h.landing_eq hb (hsound.batch b hb).1 (List.mem_of_find?_eq_some hf)
  rw [hnumber] at hlanding
  have hone : (l.landing number).length = 1 := by
    have hlen := congrArg List.length hlanding
    rw [List.length_map] at hlen
    exact hlen.symm
  have hnone : l.landed = [] := by
    have hlen := h.length_landed
    rw [hstage] at hlen
    exact List.length_eq_zero_iff.mp hlen
  have hheld := h.held_eq
  rw [hstage] at hheld
  have hperm := perm_landing l number
  have hsplit : (l.held ++ (l.flying.filter fun x => x.1 ≠ number).map Prod.snd ++
      l.landing number).Perm l.underway := by
    rw [underway, hnone, List.append_nil, List.append_assoc]
    exact hperm.append_left _
  refine ⟨h.queue_eq, hheld, ?_, hlanding, ?_, ?_, h.missed_le, h.total, ?_, h.completed,
    h.failed, fun hne => absurd (h.clearing_eq_zero hb) hne, h.cleared⟩
  · have heq := congrArg (List.filter fun x : Nat × Option (Task ι ο) => x.1 ≠ number) h.flights_eq
    rw [Pool.flights_of_batch hb, List.filter_map, List.filter_map] at heq
    exact heq
  · exact (((hsplit.append_left l.queued).append_right _).append_right _).trans h.places
  · exact h.left_queue.trans ((hsplit.symm.append_right _).append_right _)
  · have hlen := hperm.length_eq
    rw [List.length_append, hone, List.length_map, List.length_map] at hlen
    show l.calls.pool.counts.running - 1 =
      l.stale.running + (l.flying.filter fun x => x.1 ≠ number).length
    rw [h.running]
    omega

/-- A task that has landed is recorded. -/
theorem settle (h : l.Balanced) (hsound : l.calls.Sound limit) {f : Flight ι ο}
    {landing : Landing ο} {p : Pool ι ο} (hstage : l.calls.stage = .settling f landing)
    (hqueue : p.queue = l.calls.pool.queue) (hflights : p.flights = l.calls.pool.flights)
    (htotal : p.counts.total = l.calls.pool.counts.total)
    (hrunning : p.counts.running = l.calls.pool.counts.running)
    (hcompleted : p.counts.completed =
      if landing.isFailure then l.calls.pool.counts.completed
      else l.calls.pool.counts.completed + 1)
    (hfailed : p.counts.failed =
      if landing.isFailure then l.calls.pool.counts.failed + 1
      else l.calls.pool.counts.failed) :
    (l.advance { l.calls with pool := p, stage := .deciding }).Balanced := by
  obtain ⟨b, hb⟩ := hsound.exists_batch (by rw [hstage]; simp)
  have hheld := h.held_eq
  rw [hstage] at hheld
  have hone : l.landed.length = 1 := by
    rw [h.length_landed, hstage]
    rfl
  have hmove : (l.held ++ l.flying.map Prod.snd ++ [] ++
      ((if landing.isFailure then l.completed else l.completed ++ l.landed) ++
        if landing.isFailure then l.failed ++ l.landed else l.failed)).Perm
      (l.underway ++ (l.completed ++ l.failed)) := by
    refine (perm_settled _ l.landed _ _ _).trans (List.Perm.append_right _ ?_)
    rw [underway, List.append_nil]
    exact List.perm_append_comm
  simp only [advance, hstage]
  refine ⟨?_, hheld, ?_, rfl, ?_, ?_, h.missed_le, ?_, ?_, ?_, ?_,
    fun hne => absurd (h.clearing_eq_zero hb) hne, h.cleared⟩
  · rw [hqueue]
    exact h.queue_eq
  · rw [hflights]
    exact h.flights_eq
  · refine List.Perm.trans ?_ h.places
    rw [List.append_assoc, List.append_assoc, List.append_assoc (l.queued ++ l.underway),
      List.append_assoc l.queued]
    exact hmove.append_left _
  · refine h.left_queue.trans ?_
    rw [List.append_assoc, List.append_assoc]
    exact hmove.symm
  · rw [htotal]
    exact h.total
  · rw [hrunning]
    exact h.running
  · rw [hcompleted, h.completed]
    cases landing.isFailure
    · simp only [Bool.false_eq_true, if_false, List.length_append, hone]
      omega
    · simp only [if_true]
  · rw [hfailed, h.failed]
    cases landing.isFailure
    · simp only [Bool.false_eq_true, if_false]
    · simp only [if_true, List.length_append, hone]
      omega

/-- What is in flight when a call is given up has failed. -/
theorem cancel (h : l.Balanced) {why : Pause} {b : Batch ι ο}
    (hstage : l.calls.stage = .waiting why) (hb : l.calls.pool.batch = some b) :
    (l.note { l.calls with pool := l.calls.pool.abandon, stage := .leaving } .cancel).Balanced := by
  have hlen := h.length_flying
  rw [Pool.flights_of_batch hb] at hlen
  have hheld := h.held_eq
  have hlanded := h.landed_eq
  rw [hstage] at hheld hlanded
  have hheld' : l.held = [] := List.map_eq_nil_iff.mp hheld.symm
  have hlanded' : l.landed = [] := List.map_eq_nil_iff.mp hlanded.symm
  rw [Pool.abandon_of_batch hb]
  have hmove :
      (l.held ++ [] ++ l.landed ++ (l.completed ++ (l.failed ++ l.flying.map Prod.snd))).Perm
      (l.underway ++ (l.completed ++ l.failed)) := by
    rw [underway, hheld', hlanded', List.append_nil, List.append_nil, List.nil_append,
      List.nil_append, List.append_nil, ← List.append_assoc]
    exact List.perm_append_comm
  refine ⟨h.queue_eq, hheld, rfl, hlanded, ?_, ?_, h.missed_le, h.total, ?_, h.completed, ?_,
    fun hne => absurd (h.clearing_eq_zero hb) hne, h.cleared⟩
  · refine List.Perm.trans ?_ h.places
    rw [List.append_assoc, List.append_assoc, List.append_assoc (l.queued ++ l.underway),
      List.append_assoc l.queued]
    exact hmove.append_left _
  · refine h.left_queue.trans ?_
    rw [List.append_assoc, List.append_assoc]
    exact hmove.symm
  · show l.calls.pool.counts.running - b.flights.length = l.stale.running + 0
    rw [h.running]
    omega
  · show l.calls.pool.counts.failed + b.flights.length =
      l.stale.failed + (l.failed ++ l.flying.map Prod.snd).length
    rw [h.failed, List.length_append, List.length_map]
    omega

/-- A step of the call that neither takes, launches nor settles a task. -/
theorem quiet (h : l.Balanced) (hsound : l.calls.Sound limit) {stage stage' : Stage ι ο}
    {p : Pool ι ο} (hstage : l.calls.stage = stage)
    (hbefore : stage.held = [] ∧ stage.landed = [] ∧ stage.isAllowed = false)
    (hidle : stage ≠ .idle) (hafter : stage'.held = [] ∧ stage'.landed = [])
    (hqueue : p.queue = l.calls.pool.queue) (hcounts : p.counts = l.calls.pool.counts)
    (hflights : p.flights = l.calls.pool.flights) :
    (l.advance { l.calls with pool := p, stage := stage' }).Balanced := by
  obtain ⟨b, hb⟩ := hsound.exists_batch (hstage ▸ hidle)
  obtain ⟨hheld, hlanded, hallowed⟩ := hbefore
  have hsame : l.advance { l.calls with pool := p, stage := stage' } =
      { l with calls := { l.calls with pool := p, stage := stage' } } := by
    rw [advance, hstage]
    cases stage with
    | allowed => cases hallowed
    | holding task => cases hheld
    | settling flight landing => cases hlanded
    | _ => rfl
  rw [hsame]
  refine h.of_same hqueue hcounts hflights ?_ ?_ rfl
    fun hne => absurd (h.clearing_eq_zero hb) hne
  · rw [hstage, hheld]
    exact hafter.1
  · rw [hstage, hlanded]
    exact hafter.2

/-- The call finds the queue empty. -/
theorem runDry (h : l.Balanced) (hsound : l.calls.Sound limit) (hstage : l.calls.stage = .allowed)
    (hqueue : l.calls.pool.queue = []) :
    (l.advance { l.calls with stage := .waiting .empty }).Balanced := by
  obtain ⟨b, hb⟩ := hsound.exists_batch (by rw [hstage]; simp)
  have hqueued : l.queued = [] := by
    have hlen := h.length_queued
    rw [hqueue] at hlen
    exact List.length_eq_zero_iff.mp hlen.symm
  have hheld : l.held = [] := by
    have hlen := h.length_held
    rw [hstage] at hlen
    exact List.length_eq_zero_iff.mp hlen
  have hsame : l.advance { l.calls with stage := .waiting .empty } =
      { l with calls := { l.calls with stage := .waiting .empty } } := by
    simp only [advance, hstage, hqueued, hheld, List.drop_nil, List.take_nil, List.append_nil]
  rw [hsame]
  refine h.of_same rfl rfl rfl ?_ ?_ rfl fun hne => absurd (h.clearing_eq_zero hb) hne
  · rw [hstage]
    rfl
  · rw [hstage]
    rfl

/-- The call gives the pool free. -/
theorem leave (h : l.Balanced) (hsound : l.calls.Sound limit)
    (hwhen : (∃ why, l.calls.stage = .waiting why) ∧ l.calls.pool.flights = [] ∨
      l.calls.stage = .leaving) :
    (l.note { l.calls with pool := l.calls.pool.leave, stage := .idle } .leave).Balanced := by
  have hnone : l.calls.pool.flights = [] ∧ l.calls.stage.held = [] ∧
      l.calls.stage.landed = [] := by
    rcases hwhen with ⟨⟨why, hstage⟩, hflights⟩ | hstage
    · rw [hstage]
      exact ⟨hflights, rfl, rfl⟩
    · obtain ⟨b, hb⟩ := hsound.exists_batch (by rw [hstage]; simp)
      have hfits := (hsound.batch b hb).2
      rw [hstage] at hfits
      rw [hstage, Pool.flights_of_batch hb]
      exact ⟨hfits, rfl, rfl⟩
  obtain ⟨hflights, hheld, hlanded⟩ := hnone
  exact h.of_same rfl rfl hflights.symm hheld.symm hlanded.symm rfl fun _ => rfl

end Balanced

/-- Whether nothing is halfway done: no reset, and no step of a task from one place to
another. -/
def IsSettled (c : Calls ι ο) : Prop :=
  c.clearing = 0 ∧ c.stage.held = [] ∧ c.stage.landed = []

end Ledger
end AnalysisRunner
