import AnalysisRunner.Pool.Options
import AnalysisRunner.Pool.Task
import AnalysisRunner.Table

/-!
# The task pool

A pool has a queue of tasks, and runs them in batches.  While a batch is on, tasks
are dispatched from the queue in order as long as there is room, and joined as they
end, in any order.  The pool itself knows nothing of time: when a task ends, how, and
how long it took, is told to it.

A batch begins with `begin`; then come `dispatch?` and `join?` in any order; and it
ends with `finish?`, when nothing is in flight and nothing more may be dispatched, or
with `cancel`.  Tasks may be added, and the pool stopped or reset, at any time.

* `stop` forbids further dispatch until the next batch begins.
* With `stopOnError`, so does a failure within the batch.
* `reset` empties the queue and clears the counts; it does not touch the batch.
* A batch tells each join to the listener that the pool had when the batch began.
* A task may be lost (`lose?`): it ends without an outcome.  That is a failure of which
  nobody is told.

A pool is shared.  Its queue, its counts, its flags and its listener are guarded one by
one, so an operation that touches several of them is not one step: other callers may
come in between.  Each operation is therefore made of the steps that are one, in their
order.  Only `add` touches two things at once, because it keeps the queue to itself
until the task is counted.
-/

namespace AnalysisRunner

/-! ## 1. Counts -/

/-- What a pool counts. -/
structure PoolCounts where
  /-- Tasks added. -/
  total : Nat
  /-- Tasks dispatched and not joined. -/
  running : Nat
  completed : Nat
  failed : Nat
  /-- The nanoseconds that the completed tasks took together. -/
  time : Nat
  deriving DecidableEq, Repr

namespace PoolCounts

/-- The counts of a pool in which nothing has happened. -/
def zero : PoolCounts :=
  ⟨0, 0, 0, 0, 0⟩

/-- One task more has been added. -/
def added (c : PoolCounts) : PoolCounts :=
  { c with total := c.total + 1 }

/-- One task more is running. -/
def launched (c : PoolCounts) : PoolCounts :=
  { c with running := c.running + 1 }

/-- One task less is running. -/
def landed (c : PoolCounts) : PoolCounts :=
  { c with running := c.running - 1 }

/-- The counts after an outcome, which came after so many nanoseconds. -/
def record {ο : Type} (c : PoolCounts) (o : Outcome ο) (took : Nat) : PoolCounts :=
  if o.isFailure then { c with failed := c.failed + 1 }
  else { c with completed := c.completed + 1, time := c.time + took }

/-- The counts after a task has ended without an outcome. -/
def recordLoss (c : PoolCounts) : PoolCounts :=
  { c with failed := c.failed + 1 }

/-- The counts after so many tasks have been given up. -/
def abandon (c : PoolCounts) (n : Nat) : PoolCounts :=
  { c with running := c.running - n, failed := c.failed + n }

/-- The mean time of the completed tasks, in whole nanoseconds.  Their number is cut to
thirty-two bits first; where that leaves nothing of it, there is no mean. -/
def average? (c : PoolCounts) : Option Nat :=
  if c.completed = 0 then some 0
  else if c.completed % Nat.pow 2 32 = 0 then none
  else some (c.time / (c.completed % Nat.pow 2 32))

end PoolCounts

/-- How many tasks there are in which place. -/
structure PoolTally where
  total : Nat
  queued : Nat
  running : Nat
  completed : Nat
  failed : Nat
  deriving DecidableEq, Repr

/-- What is told about a pool. -/
structure PoolStats extends PoolTally where
  /-- The mean time of the completed tasks, in nanoseconds. -/
  average : Nat
  deriving DecidableEq, Repr

/-- The tally of counts, with the length of the queue. -/
def PoolCounts.tally (c : PoolCounts) (queued : Nat) : PoolTally where
  total := c.total
  queued := queued
  running := c.running
  completed := c.completed
  failed := c.failed

/-- What is told of counts, with the length of the queue.  Nothing can be told where
there is no mean time. -/
def PoolCounts.stats? (c : PoolCounts) (queued : Nat) : Option PoolStats :=
  c.average?.map fun average => { c.tally queued with average }

/-! ## 2. Pools -/

/-- What a listener is told when a task is joined. -/
structure Progress where
  /-- How many tasks were joined by now. -/
  finished : Nat
  /-- How many tasks the batch began with. -/
  planned : Nat
  id : String
  deriving DecidableEq, Repr

/-- A dispatched task, by its number within the batch. -/
structure Flight (ι ο : Type) where
  number : Nat
  task : Task ι ο

/-- A running batch. -/
structure Batch (ι ο : Type) where
  /-- The tasks in flight, in the order of dispatch. -/
  flights : List (Flight ι ο)
  /-- How many tasks were dispatched. -/
  dispatched : Nat
  /-- How many tasks were in the queue when the batch began. -/
  planned : Nat
  /-- How many tasks were joined. -/
  finished : Nat
  failureSeen : Bool
  /-- The outcomes by the names of the tasks. -/
  results : Table String (Outcome ο)
  /-- Who is told about the joins, if anybody is. -/
  listener : Option Nat
  /-- What the listener was told, in order. -/
  told : List Progress

/-- A batch that knows nothing yet. -/
def Batch.blank {ι ο : Type} : Batch ι ο :=
  ⟨[], 0, 0, 0, false, .empty, none, []⟩

/-- A pool. -/
structure Pool (ι ο : Type) where
  options : PoolOptions
  queue : List (Task ι ο)
  counts : PoolCounts
  stopping : Bool
  /-- Who is told about the joins of the batches to come, by number. -/
  listener : Option Nat
  batch : Option (Batch ι ο)

/-- Why a batch cannot begin. -/
inductive PoolFault where
  | alreadyProcessing
  deriving DecidableEq, Repr

/-- What is said about a fault. -/
def PoolFault.message : PoolFault → String
  | .alreadyProcessing => "Scheduler is already processing a batch"

namespace Pool

variable {ι ο : Type}

/-- A pool without tasks; it has room for at least one. -/
def new (options : PoolOptions) : Pool ι ο where
  options := { options with limit := max options.limit 1 }
  queue := []
  counts := .zero
  stopping := false
  listener := none
  batch := none

/-- Whether a batch is on. -/
def isProcessing (p : Pool ι ο) : Bool :=
  p.batch.isSome

/-- How many tasks of a pool are in which place, as it counts them. -/
def tally (p : Pool ι ο) : PoolTally :=
  p.counts.tally p.queue.length

/-- What is told about a pool.  The length of the queue is looked up first, then the
counts. -/
def stats? (p : Pool ι ο) : Option PoolStats :=
  p.counts.stats? p.queue.length

/-! ## 3. Steps at any time -/

/-- Adds a task to the end of the queue. -/
def add (p : Pool ι ο) (t : Task ι ο) : Pool ι ο :=
  { p with queue := p.queue ++ [t], counts := p.counts.added }

/-- Adds tasks, one after the other. -/
def addAll (p : Pool ι ο) (ts : List (Task ι ο)) : Pool ι ο :=
  ts.foldl add p

/-- Gives the pool a listener, in place of the one it had.  A running batch keeps its
own. -/
def listen (p : Pool ι ο) (listener : Nat) : Pool ι ο :=
  { p with listener := some listener }

/-- Asks the running batch to dispatch nothing more. -/
def stop (p : Pool ι ο) : Pool ι ο :=
  { p with stopping := true }

def clearQueue (p : Pool ι ο) : Pool ι ο :=
  { p with queue := [] }

def clearCounts (p : Pool ι ο) : Pool ι ο :=
  { p with counts := .zero }

/-- Empties the queue, then clears the counts. -/
def reset (p : Pool ι ο) : Pool ι ο :=
  p.clearQueue.clearCounts

/-! ## 4. Steps of a batch -/

/-- The pool with its batch changed, if it has one. -/
def updateBatch (p : Pool ι ο) (f : Batch ι ο → Batch ι ο) : Pool ι ο :=
  { p with batch := p.batch.map f }

/-- Takes the pool for a batch, unless one is on. -/
def enter (p : Pool ι ο) : Except PoolFault (Pool ι ο) :=
  match p.batch with
  | some _ => .error .alreadyProcessing
  | none => .ok { p with batch := some .blank }

/-- Forgets that the pool was stopped. -/
def clearStop (p : Pool ι ο) : Pool ι ο :=
  { p with stopping := false }

/-- Notes how many tasks there are. -/
def plan (p : Pool ι ο) : Pool ι ο :=
  p.updateBatch fun b => { b with planned := p.queue.length }

/-- Notes who is to be told. -/
def hear (p : Pool ι ο) : Pool ι ο :=
  p.updateBatch fun b => { b with listener := p.listener }

/-- Begins a batch, unless one is on. -/
def begin (p : Pool ι ο) : Except PoolFault (Pool ι ο) :=
  p.enter.map fun p => p.clearStop.plan.hear

/-- Whether nothing more may be dispatched in a batch. -/
def isHalted (p : Pool ι ο) (b : Batch ι ο) : Bool :=
  p.stopping || (p.options.stopOnError && b.failureSeen)

/-- Whether one task more may be in flight. -/
def hasRoom (p : Pool ι ο) (b : Batch ι ο) : Bool :=
  b.flights.length < p.options.limit

/-- Takes the first task from the queue. -/
def take? (p : Pool ι ο) : Option (Task ι ο × Pool ι ο) :=
  match p.queue with
  | [] => none
  | t :: rest => some (t, { p with queue := rest })

/-- Counts a task as running and sets it going. -/
def launch (p : Pool ι ο) (t : Task ι ο) : Pool ι ο :=
  updateBatch { p with counts := p.counts.launched } fun b =>
    { b with
      flights := b.flights ++ [⟨b.dispatched, t⟩]
      dispatched := b.dispatched + 1 }

/-- Dispatches the first task of the queue, if there is room and no halt. -/
def dispatch? (p : Pool ι ο) : Option (Pool ι ο) :=
  match p.batch with
  | none => none
  | some b =>
    if p.hasRoom b && !p.isHalted b then p.take?.map fun (t, p) => p.launch t
    else none

/-- Dispatches up to so many tasks. -/
def dispatchUpTo : Nat → Pool ι ο → Pool ι ο
  | 0, p => p
  | n + 1, p =>
    match p.dispatch? with
    | some p => dispatchUpTo n p
    | none => p

/-- Dispatches as many tasks as possible. -/
def fill (p : Pool ι ο) : Pool ι ο :=
  dispatchUpTo p.queue.length p

/-- Takes the task with a given number out of the flights; it is running no more. -/
def land? (p : Pool ι ο) (number : Nat) : Option (Flight ι ο × Pool ι ο) :=
  match p.batch with
  | none => none
  | some b =>
    (b.flights.find? fun f => f.number = number).map fun f =>
      (f, { p with
        counts := p.counts.landed
        batch := some { b with flights := b.flights.filter fun f => f.number ≠ number } })

/-- Records the outcome of a task that has landed, and tells the listener. -/
def record (p : Pool ι ο) (f : Flight ι ο) (o : Outcome ο) (took : Nat) : Pool ι ο :=
  updateBatch { p with counts := p.counts.record o took } fun b =>
    { b with
      finished := b.finished + 1
      failureSeen := b.failureSeen || o.isFailure
      results := b.results.insert f.task.id o
      told :=
        if b.listener.isSome then b.told ++ [⟨b.finished + 1, b.planned, f.task.id⟩]
        else b.told }

/-- Records that a task has landed without an outcome. -/
def recordLoss (p : Pool ι ο) : Pool ι ο :=
  updateBatch { p with counts := p.counts.recordLoss } fun b => { b with failureSeen := true }

/-- Joins the task in flight with a given number, which took so many nanoseconds. -/
def join? (p : Pool ι ο) (number : Nat) (o : Outcome ο) (took : Nat) : Option (Pool ι ο) :=
  (p.land? number).map fun (f, p) => p.record f o took

/-- Gives up the task in flight with a given number, which ended without an outcome. -/
def lose? (p : Pool ι ο) (number : Nat) : Option (Pool ι ο) :=
  (p.land? number).map fun (_, p) => p.recordLoss

/-- Gives the pool free for the next batch. -/
def leave (p : Pool ι ο) : Pool ι ο :=
  { p with batch := none }

/-- Ends a batch in which nothing is in flight and nothing can be dispatched, with
its results. -/
def finish? (p : Pool ι ο) : Option (Table String (Outcome ο) × Pool ι ο) :=
  match p.batch with
  | none => none
  | some b =>
    if b.flights.isEmpty && (p.queue.isEmpty || p.isHalted b) then some (b.results, p.leave)
    else none

/-- Gives up what is in flight: it counts as failed. -/
def abandon (p : Pool ι ο) : Pool ι ο :=
  match p.batch with
  | none => p
  | some b =>
    { p with
      counts := p.counts.abandon b.flights.length
      batch := some { b with flights := [] } }

/-- Gives up the running batch, with all that is in flight. -/
def cancel (p : Pool ι ο) : Pool ι ο :=
  p.abandon.leave

end Pool
end AnalysisRunner
