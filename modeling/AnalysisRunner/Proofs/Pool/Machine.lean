import AnalysisRunner.Pool.Basic
import AnalysisRunner.Proofs.Runs

/-!
# A pool as a machine

The operations of a pool are the steps of a machine, and any order of steps that the
pool allows is a run of it.  A task that is joined brings its outcome along, so a run
fixes in which order tasks end and how: with a value, an error, a crash, or because
their time was up.

`act?` performs one action, and answers `none` where the pool does not allow it.
Beginning a batch while one is on is allowed; it is refused and changes nothing.  Every
action is taken as a whole here: nobody else comes between the steps that it is made of.
What happens if somebody does is said in `Proofs.Pool.Calls`.

The steps that a batch takes have one inversion lemma each (`dispatch?_eq_some_iff`,
`join?_eq_some_iff`, `lose?_eq_some_iff`, `finish?_eq_some_iff`): they say what must
hold for the step and what the pool is afterwards, and no later proof looks into the
operations again.
-/

namespace AnalysisRunner

/-- What can be done to a pool, and what a batch can do. -/
inductive PoolAction (ι ο : Type) where
  | add (task : Task ι ο)
  | listen (listener : Nat)
  | stop
  | reset
  /-- A batch begins, or is refused because one is on. -/
  | execute
  | dispatch
  /-- A task is joined, so many nanoseconds after it was set going. -/
  | join (number : Nat) (outcome : Outcome ο) (took : Nat)
  | lose (number : Nat)
  /-- The batch is over and its results are handed out. -/
  | finish
  | cancel

namespace Pool

variable {ι ο : Type}

/-- The pool after an action, if the action is possible. -/
def act? (p : Pool ι ο) : PoolAction ι ο → Option (Pool ι ο)
  | .add task => some (p.add task)
  | .listen listener => some (p.listen listener)
  | .stop => some p.stop
  | .reset => some p.reset
  | .execute =>
    match p.begin with
    | .ok q => some q
    | .error _ => some p
  | .dispatch => p.dispatch?
  | .join number outcome took => p.join? number outcome took
  | .lose number => p.lose? number
  | .finish => p.finish?.map Prod.snd
  | .cancel => some p.cancel

/-- The pool after several actions, if each is possible when it comes. -/
def run? (p : Pool ι ο) (as : List (PoolAction ι ο)) : Option (Pool ι ο) :=
  Machine.run? act? p as

/-- The tasks in flight, none if there is no batch. -/
def flights (p : Pool ι ο) : List (Flight ι ο) :=
  (p.batch.map Batch.flights).getD []

theorem flights_of_batch {p : Pool ι ο} {b : Batch ι ο} (h : p.batch = some b) :
    p.flights = b.flights := by
  rw [flights, h]
  rfl

theorem flights_of_idle {p : Pool ι ο} (h : p.batch = none) : p.flights = [] := by
  rw [flights, h]
  rfl

/-! ## 1. Runs -/

@[simp] theorem run?_nil (p : Pool ι ο) : p.run? [] = some p := rfl

theorem run?_cons_eq_some_iff {p r : Pool ι ο} {a : PoolAction ι ο}
    {rest : List (PoolAction ι ο)} :
    p.run? (a :: rest) = some r ↔ ∃ q, p.act? a = some q ∧ q.run? rest = some r :=
  Machine.run?_cons_eq_some_iff

theorem run?_append_eq_some_iff {p r : Pool ι ο} {as bs : List (PoolAction ι ο)} :
    p.run? (as ++ bs) = some r ↔ ∃ q, p.run? as = some q ∧ q.run? bs = some r :=
  Machine.run?_append_eq_some_iff

/-! ## 2. What a step of a batch can do -/

theorem begin_of_idle {p : Pool ι ο} (h : p.batch = none) :
    p.begin = .ok { p with
      stopping := false
      batch := some ⟨[], 0, p.queue.length, 0, false, .empty, p.listener, []⟩ } := by
  unfold begin enter
  rw [h]
  rfl

theorem begin_of_batch {p : Pool ι ο} {b : Batch ι ο} (h : p.batch = some b) :
    p.begin = .error .alreadyProcessing := by
  unfold begin enter
  rw [h]
  rfl

/-- A batch begins exactly when none is on. -/
theorem begin_eq_ok_iff {p q : Pool ι ο} :
    p.begin = .ok q ↔ p.batch = none ∧ q = { p with
      stopping := false
      batch := some ⟨[], 0, p.queue.length, 0, false, .empty, p.listener, []⟩ } := by
  cases hb : p.batch with
  | none =>
    rw [begin_of_idle hb]
    constructor
    · intro h
      injection h with h
      exact ⟨rfl, h.symm⟩
    · rintro ⟨-, rfl⟩
      rfl
  | some b =>
    rw [begin_of_batch hb]
    constructor
    · intro h
      cases h
    · rintro ⟨h, -⟩
      cases h

section

variable {p : Pool ι ο} {b : Batch ι ο}

theorem plan_of_batch (h : p.batch = some b) :
    p.plan = { p with batch := some { b with planned := p.queue.length } } := by
  rw [plan, updateBatch, h]
  rfl

theorem hear_of_batch (h : p.batch = some b) :
    p.hear = { p with batch := some { b with listener := p.listener } } := by
  rw [hear, updateBatch, h]
  rfl

theorem launch_of_batch (h : p.batch = some b) (t : Task ι ο) :
    p.launch t = { p with
      counts := p.counts.launched
      batch := some { b with
        flights := b.flights ++ [⟨b.dispatched, t⟩]
        dispatched := b.dispatched + 1 } } := by
  simp only [launch, updateBatch, h, Option.map_some]

theorem record_of_batch (h : p.batch = some b) (f : Flight ι ο) (o : Outcome ο) (took : Nat) :
    p.record f o took = { p with
      counts := p.counts.record o took
      batch := some { b with
        finished := b.finished + 1
        failureSeen := b.failureSeen || o.isFailure
        results := b.results.insert f.task.id o
        told := if b.listener.isSome then b.told ++ [⟨b.finished + 1, b.planned, f.task.id⟩]
          else b.told } } := by
  simp only [record, updateBatch, h, Option.map_some]

theorem recordLoss_of_batch (h : p.batch = some b) :
    p.recordLoss = { p with
      counts := p.counts.recordLoss
      batch := some { b with failureSeen := true } } := by
  simp only [recordLoss, updateBatch, h, Option.map_some]

theorem abandon_of_batch (h : p.batch = some b) :
    p.abandon = { p with
      counts := p.counts.abandon b.flights.length
      batch := some { b with flights := [] } } := by
  rw [abandon, h]

end

theorem take?_eq_some_iff {p q : Pool ι ο} {t : Task ι ο} :
    p.take? = some (t, q) ↔ ∃ rest, p.queue = t :: rest ∧ q = { p with queue := rest } := by
  unfold take?
  cases hq : p.queue with
  | nil => simp
  | cons t' rest =>
    constructor
    · intro h
      obtain ⟨rfl, rfl⟩ := Prod.mk.inj (Option.some.inj h)
      exact ⟨rest, rfl, rfl⟩
    · rintro ⟨rest', h, rfl⟩
      obtain ⟨rfl, rfl⟩ := List.cons.inj h
      rfl

/-- A dispatch takes the first task of the queue, if there is one, there is room and no
halt. -/
theorem dispatch?_eq_some_iff {p q : Pool ι ο} :
    p.dispatch? = some q ↔ ∃ b t rest, p.batch = some b ∧ p.queue = t :: rest ∧
      b.flights.length < p.options.limit ∧ p.isHalted b = false ∧
      q = { p with
        queue := rest
        counts := p.counts.launched
        batch := some { b with
          flights := b.flights ++ [⟨b.dispatched, t⟩]
          dispatched := b.dispatched + 1 } } := by
  unfold dispatch?
  cases hb : p.batch with
  | none => simp
  | some b =>
    have hmay : (p.hasRoom b && !p.isHalted b) = true ↔
        b.flights.length < p.options.limit ∧ p.isHalted b = false := by simp [hasRoom]
    by_cases hroom : b.flights.length < p.options.limit ∧ p.isHalted b = false
    · simp only [hmay.mpr hroom, if_true]
      rw [Option.map_eq_some_iff]
      constructor
      · rintro ⟨⟨t, r⟩, htake, rfl⟩
        obtain ⟨rest, hqueue, rfl⟩ := take?_eq_some_iff.mp htake
        exact ⟨b, t, rest, rfl, hqueue, hroom.1, hroom.2,
          launch_of_batch (p := { p with queue := rest }) hb t⟩
      · rintro ⟨b', t, rest, hb', hqueue, -, -, rfl⟩
        obtain rfl := Option.some.inj hb'
        exact ⟨(t, _), take?_eq_some_iff.mpr ⟨rest, hqueue, rfl⟩,
          launch_of_batch (p := { p with queue := rest }) hb t⟩
    · simp only [mt hmay.mp hroom, if_false, Bool.false_eq_true]
      constructor
      · intro h
        cases h
      · rintro ⟨b', t', rest', hb', -, hlimit, hhalt, -⟩
        rw [← Option.some.inj hb'] at hlimit hhalt
        exact absurd ⟨hlimit, hhalt⟩ hroom

/-- A task lands if it is in flight. -/
theorem land?_eq_some_iff {p q : Pool ι ο} {number : Nat} {f : Flight ι ο} :
    p.land? number = some (f, q) ↔ ∃ b, p.batch = some b ∧
      b.flights.find? (fun f => f.number = number) = some f ∧
      q = { p with
        counts := p.counts.landed
        batch := some { b with flights := b.flights.filter fun f => f.number ≠ number } } := by
  unfold land?
  cases hb : p.batch with
  | none => simp
  | some b =>
    dsimp only
    rw [Option.map_eq_some_iff]
    constructor
    · rintro ⟨f', hf, heq⟩
      obtain ⟨rfl, rfl⟩ := Prod.mk.inj heq
      exact ⟨b, rfl, hf, rfl⟩
    · rintro ⟨b', hb', hf, rfl⟩
      obtain rfl := Option.some.inj hb'
      exact ⟨f, hf, rfl⟩

/-- A join takes a task in flight out and records its outcome. -/
theorem join?_eq_some_iff {p q : Pool ι ο} {number : Nat} {o : Outcome ο} {took : Nat} :
    p.join? number o took = some q ↔ ∃ b f, p.batch = some b ∧
      b.flights.find? (fun f => f.number = number) = some f ∧
      q = { p with
        counts := p.counts.landed.record o took
        batch := some { b with
          flights := b.flights.filter fun f => f.number ≠ number
          finished := b.finished + 1
          failureSeen := b.failureSeen || o.isFailure
          results := b.results.insert f.task.id o
          told := if b.listener.isSome then b.told ++ [⟨b.finished + 1, b.planned, f.task.id⟩]
            else b.told } } := by
  rw [join?, Option.map_eq_some_iff]
  constructor
  · rintro ⟨⟨f, r⟩, hland, rfl⟩
    obtain ⟨b, hb, hf, rfl⟩ := land?_eq_some_iff.mp hland
    exact ⟨b, f, hb, hf, rfl⟩
  · rintro ⟨b, f, hb, hf, rfl⟩
    exact ⟨(f, _), land?_eq_some_iff.mpr ⟨b, hb, hf, rfl⟩, rfl⟩

/-- A task in flight can be lost; it counts as failed. -/
theorem lose?_eq_some_iff {p q : Pool ι ο} {number : Nat} :
    p.lose? number = some q ↔ ∃ b f, p.batch = some b ∧
      b.flights.find? (fun f => f.number = number) = some f ∧
      q = { p with
        counts := p.counts.landed.recordLoss
        batch := some { b with
          flights := b.flights.filter fun f => f.number ≠ number
          failureSeen := true } } := by
  rw [lose?, Option.map_eq_some_iff]
  constructor
  · rintro ⟨⟨f, r⟩, hland, rfl⟩
    obtain ⟨b, hb, hf, rfl⟩ := land?_eq_some_iff.mp hland
    exact ⟨b, f, hb, hf, rfl⟩
  · rintro ⟨b, f, hb, hf, rfl⟩
    exact ⟨(f, _), land?_eq_some_iff.mpr ⟨b, hb, hf, rfl⟩, rfl⟩

/-- A batch is over when nothing is in flight and nothing more may be dispatched. -/
theorem finish?_eq_some_iff {p q : Pool ι ο} {results : Table String (Outcome ο)} :
    p.finish? = some (results, q) ↔ ∃ b, p.batch = some b ∧ b.flights = [] ∧
      (p.queue = [] ∨ p.isHalted b = true) ∧ results = b.results ∧
      q = { p with batch := none } := by
  unfold finish?
  cases hb : p.batch with
  | none => simp
  | some b =>
    have hover : (b.flights.isEmpty && (p.queue.isEmpty || p.isHalted b)) = true ↔
        b.flights = [] ∧ (p.queue = [] ∨ p.isHalted b = true) := by simp
    by_cases h : b.flights = [] ∧ (p.queue = [] ∨ p.isHalted b = true)
    · simp only [hover.mpr h, if_true]
      constructor
      · intro hq
        obtain ⟨hr, hq⟩ := Prod.mk.inj (Option.some.inj hq)
        exact ⟨b, rfl, h.1, h.2, hr.symm, hq.symm⟩
      · rintro ⟨b', hb', -, -, rfl, rfl⟩
        rw [← Option.some.inj hb', leave]
    · simp only [mt hover.mp h, if_false, Bool.false_eq_true]
      constructor
      · intro hq
        cases hq
      · rintro ⟨b', hb', hfl, hq, -, -⟩
        rw [← Option.some.inj hb'] at hfl hq
        exact absurd ⟨hfl, hq⟩ h

theorem cancel_of_idle {p : Pool ι ο} (h : p.batch = none) : p.cancel = p := by
  obtain ⟨options, queue, counts, stopping, listener, batch⟩ := p
  obtain rfl : batch = none := h
  rfl

/-- What is in flight when a batch is given up counts as failed. -/
theorem cancel_of_batch {p : Pool ι ο} {b : Batch ι ο} (h : p.batch = some b) :
    p.cancel = { p with counts := p.counts.abandon b.flights.length, batch := none } := by
  rw [cancel, abandon_of_batch h]
  rfl

end Pool
end AnalysisRunner
