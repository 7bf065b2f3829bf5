import AnalysisRunner.Pool.Basic

/-!
# Batches in time

A timeline runs a batch of a pool against a clock that moves only when nothing else
can happen.  In this order:

1. a task that has ended is joined, the earliest first, and the room it leaves is
   filled from the queue;
2. a batch with nothing left to do ends;
3. tasks that were dispatched start, in the order of dispatch, and those that do not
   pause end at once;
4. the clock moves to the next instant at which a task wakes, and all tasks that
   wake then go on, in the order in which their alarms were set.

The time limit of a task counts from its start.  A task that ends at the very instant
of its limit has made it.
-/

namespace AnalysisRunner

/-- A task that pauses. -/
structure Sleeper (ι ο : Type) where
  flight : Flight ι ο
  /-- When the pause ends. -/
  wake : Nat
  /-- The pauses after this one. -/
  later : List Nat
  /-- When the task is given up. -/
  deadline : Option Nat

/-- An alarm for a task, by its number. -/
structure Alarm where
  due : Nat
  number : Nat
  deriving DecidableEq, Repr

/-- What can be seen of a batch as it runs. -/
inductive PoolEvent (ι ο : Type) where
  | started (task : Task ι ο)
  | ended (task : Task ι ο)
  /-- A task was joined: how many were by now, how many the batch began with, and
  the name of the task. -/
  | joined (finished planned : Nat) (id : String)

/-- A pool with a clock. -/
structure Timeline (ι ο : Type) where
  pool : Pool ι ο
  now : Nat
  /-- How many of the dispatched tasks have started. -/
  launched : Nat
  sleepers : List (Sleeper ι ο)
  /-- The alarms in the order in which they were set. -/
  alarms : List Alarm
  /-- Tasks that have ended and were not joined, the earliest first. -/
  ended : List (Nat × Outcome ο)
  /-- What happened, the latest first. -/
  journal : List (PoolEvent ι ο)

namespace Timeline

variable {ι ο : Type}

/-- A pool at a time, with nothing running. -/
def ofPool (pool : Pool ι ο) (now : Nat) : Timeline ι ο where
  pool
  now
  launched := 0
  sleepers := []
  alarms := []
  ended := []
  journal := []

/-- What happened, in order. -/
def events (t : Timeline ι ο) : List (PoolEvent ι ο) :=
  t.journal.reverse

/-! ## 1. Tasks -/

/-- Notes the end of a task. -/
def ending (t : Timeline ι ο) (f : Flight ι ο) (o : Outcome ο) : Timeline ι ο :=
  { t with
    sleepers := t.sleepers.filter fun s => s.flight.number ≠ f.number
    alarms := t.alarms.filter fun a => a.number ≠ f.number
    ended := t.ended ++ [(f.number, o)]
    journal := .ended f.task :: t.journal }

/-- Lets a task run whose pause is over: to the next pause, or to its end.  If its
limit has passed by then, it is given up. -/
def proceed (t : Timeline ι ο) (f : Flight ι ο) (pauses : List Nat) (deadline : Option Nat) :
    Timeline ι ο :=
  match pauses with
  | [] => t.ending f f.task.run.ending.outcome
  | pause :: later =>
    if deadline.any (· ≤ t.now) then
      t.ending f (.timedOut f.task.id (t.pool.options.timeout.getD 0))
    else
      { t with
        sleepers := (t.sleepers.filter fun s => s.flight.number ≠ f.number) ++
          [⟨f, t.now + pause, later, deadline⟩]
        alarms := t.alarms ++ [⟨t.now + pause, f.number⟩] }

/-- Notes the start of a task. -/
def launch (t : Timeline ι ο) (f : Flight ι ο) : Timeline ι ο :=
  { t with
    launched := f.number + 1
    journal := .started f.task :: t.journal }

/-- Sets the alarm for the limit of a task, if the task pauses. -/
def setLimit (t : Timeline ι ο) (number : Nat) : Option Nat → Timeline ι ο
  | some due =>
    if t.sleepers.any fun s => s.flight.number = number then
      { t with alarms := t.alarms ++ [⟨due, number⟩] }
    else t
  | none => t

/-- Starts a task; the alarm for its limit is set after that for its first pause. -/
def start (t : Timeline ι ο) (f : Flight ι ο) : Timeline ι ο :=
  let deadline := t.pool.options.timeout.map (t.now + ·)
  ((t.launch f).proceed f (f.task.run.pauses.filter (· ≠ 0)) deadline).setLimit f.number deadline

/-- Lets a task go on at an alarm. -/
def resume (t : Timeline ι ο) (number : Nat) : Timeline ι ο :=
  match t.sleepers.find? fun s => s.flight.number = number with
  | none => t
  | some s =>
    if s.wake ≤ t.now then t.proceed s.flight s.later s.deadline
    else t.ending s.flight (.timedOut s.flight.task.id (t.pool.options.timeout.getD 0))

/-! ## 2. Steps -/

/-- The tasks that were dispatched and have not started. -/
def waiting (t : Timeline ι ο) : List (Flight ι ο) :=
  match t.pool.batch with
  | none => []
  | some b => b.flights.filter fun f => t.launched ≤ f.number

/-- The task in flight with a given number. -/
def flight? (t : Timeline ι ο) (number : Nat) : Option (Flight ι ο) :=
  t.pool.batch.bind fun b => b.flights.find? fun f => f.number = number

/-- The nanoseconds that a task takes which is not given up: the clock moves only while
tasks pause. -/
def elapsed (t : Timeline ι ο) (number : Nat) : Nat :=
  1000000 * ((t.flight? number).map fun f => f.task.run.pauses.foldl (· + ·) 0).getD 0

/-- Joins a task that has ended, and fills the room. -/
def join (t : Timeline ι ο) (number : Nat) (o : Outcome ο) (rest : List (Nat × Outcome ο)) :
    Timeline ι ο :=
  let id := ((t.flight? number).map fun f => f.task.id).getD ""
  match t.pool.join? number o (t.elapsed number) with
  | none => { t with ended := rest }
  | some pool =>
    let event := pool.batch.map fun b => PoolEvent.joined b.finished b.planned id
    { t with pool := pool.fill, ended := rest, journal := event.toList ++ t.journal }

/-- The next instant at which an alarm goes off. -/
def nextAlarm? (t : Timeline ι ο) : Option Nat :=
  (t.alarms.map Alarm.due).min?

/-- Moves the clock to an instant and lets all tasks go on that have an alarm then. -/
def wakeAt (t : Timeline ι ο) (instant : Nat) : Timeline ι ο :=
  let due := t.alarms.filter fun a => a.due ≤ instant
  let t := { t with
    now := max t.now instant
    alarms := t.alarms.filter fun a => ¬ a.due ≤ instant }
  (due.map Alarm.number).eraseDups.foldl resume t

/-- How a stretch of a timeline ends. -/
inductive Stop (ο : Type) where
  /-- Nothing more happens until the time asked for. -/
  | idle
  /-- The batch is over. -/
  | over (results : Table String (Outcome ο))

/-- Runs a batch until it is over or an instant is reached.  The first argument
bounds the number of steps. -/
def runFor : Nat → Option Nat → Timeline ι ο → Timeline ι ο × Stop ο
  | 0, _, t => (t, .idle)
  | fuel + 1, horizon, t =>
    match t.ended with
    | (number, o) :: rest => runFor fuel horizon (t.join number o rest)
    | [] =>
      match t.pool.finish? with
      | some (results, pool) => ({ t with pool }, .over results)
      | none =>
        match t.waiting with
        | f :: fs => runFor fuel horizon ((f :: fs).foldl start t)
        | [] =>
          match t.nextAlarm? with
          | none => (t, .idle)
          | some instant =>
            if horizon.any (· < instant) then (t, .idle)
            else runFor fuel horizon (t.wakeAt instant)

/-- The work that is left: no stretch of a timeline takes more steps. -/
def remaining (t : Timeline ι ο) : Nat :=
  let flights := (t.pool.batch.map Batch.flights).getD []
  let tasks := flights.map Flight.task ++ t.pool.queue
  2 + 2 * t.alarms.length + 6 * tasks.length +
    2 * (tasks.flatMap fun task => task.run.pauses).length

/-- Runs a batch until it is over or an instant is reached; then the clock shows that
instant. -/
def runUntil (t : Timeline ι ο) (instant : Nat) : Timeline ι ο × Stop ο :=
  match runFor t.remaining (some instant) t with
  | (t, .idle) => ({ t with now := max t.now instant }, .idle)
  | (t, .over results) => (t, .over results)

/-- Runs a batch until it is over. -/
def runOut (t : Timeline ι ο) : Timeline ι ο × Stop ο :=
  runFor t.remaining none t

/-- Begins a batch, unless one is on. -/
def begin (t : Timeline ι ο) : Except PoolFault (Timeline ι ο) :=
  t.pool.begin.map fun pool =>
    { t with pool := pool.fill, launched := 0, sleepers := [], alarms := [], ended := [] }

/-- Gives up the running batch, and its tasks with it. -/
def cancel (t : Timeline ι ο) : Timeline ι ο :=
  { t with
    pool := t.pool.cancel
    sleepers := []
    alarms := []
    ended := []
    journal := (t.sleepers.map fun s => .ended s.flight.task) ++ t.journal }

/-- Runs a whole batch, unless one is on. -/
def execute (t : Timeline ι ο) : Except PoolFault (Table String (Outcome ο) × Timeline ι ο) :=
  t.begin.map fun t =>
    match t.runOut with
    | (t, .over results) => (results, t)
    | (t, .idle) => (.empty, t)

end Timeline
end AnalysisRunner
