import AnalysisRunner.Proofs.Pool.Course

/-!
# One batch at a time, and not too many tasks

Batches are run by calls, and a call may come while another one runs its batch.  A *roster* is a
pool together with the calls that run a batch on it: a call that begins a batch is put on the
roster, and it goes when its batch is over or given up.  A call that is refused is counted and
nothing else.  Every run of a pool has its roster (`map_pool_run?`).

`Held` is the invariant.  There is room for what is in flight, no more tasks count as running
than are in flight, and the roster has one call if a batch is on and none otherwise.  The counter
may well be too small: a reset in the middle of a batch clears it, while the tasks stay in flight.
From then on joins and the end of the batch take away what is not there, and a counter that
stops at zero stays below the number in flight whatever comes.
-/

namespace AnalysisRunner

/-- A pool and the calls that run a batch on it. -/
structure Roster (ι ο : Type) where
  pool : Pool ι ο
  /-- How many calls were made. -/
  calls : Nat
  /-- The calls that run a batch, by number. -/
  active : List Nat

namespace Roster

variable {ι ο : Type} {r r' : Roster ι ο} {a : PoolAction ι ο} {as : List (PoolAction ι ο)}
  {limit : Nat}

/-- The roster of a new pool. -/
def new (options : PoolOptions) : Roster ι ο :=
  ⟨.new options, 0, []⟩

/-- The roster after an action, if the action is possible. -/
def act? (r : Roster ι ο) : PoolAction ι ο → Option (Roster ι ο)
  | .execute =>
    match r.pool.begin with
    | .ok p => some ⟨p, r.calls + 1, r.active ++ [r.calls]⟩
    | .error _ => some { r with calls := r.calls + 1 }
  | .finish => r.pool.finish?.map fun answer => { r with pool := answer.2, active := r.active.tail }
  | .cancel => some { r with pool := r.pool.cancel, active := r.active.tail }
  | a => (r.pool.act? a).map fun p => { r with pool := p }

/-- The roster after several actions, if each is possible when it comes. -/
def run? (r : Roster ι ο) (as : List (PoolAction ι ο)) : Option (Roster ι ο) :=
  Machine.run? act? r as

theorem map_pool_act? (r : Roster ι ο) (a : PoolAction ι ο) :
    (r.act? a).map Roster.pool = r.pool.act? a := by
  cases a with
  | execute =>
    rw [act?, Pool.act?]
    cases r.pool.begin <;> rfl
  | finish =>
    rw [act?, Pool.act?, Option.map_map]
    rfl
  | cancel => rfl
  | _ =>
    rw [act?, Option.map_map]
    · exact Option.map_id'
    all_goals simp

/-- **Every run of a pool has its roster.** -/
theorem map_pool_run? (r : Roster ι ο) (as : List (PoolAction ι ο)) :
    (r.run? as).map Roster.pool = r.pool.run? as := by
  induction as generalizing r with
  | nil => rfl
  | cons a as ih =>
    rw [run?, Pool.run?, Machine.run?, Machine.run?, ← map_pool_act?]
    cases r.act? a with
    | none => rfl
    | some q => exact ih q

/-! ## 1. The invariant -/

/-- Whether a pool is held by at most one call, and keeps its limit. -/
structure Held (limit : Nat) (r : Roster ι ο) : Prop where
  limit_eq : r.pool.options.limit = limit
  /-- There is room for what is in flight. -/
  sound : ∀ b, r.pool.batch = some b → b.Sound limit
  /-- No more tasks count as running than are in flight. -/
  running : r.pool.counts.running ≤ r.pool.flights.length
  /-- A batch is on exactly while a call is on the roster, and then it is one call. -/
  active : r.active.length = if r.pool.isProcessing then 1 else 0

theorem held_new (options : PoolOptions) :
    Held (max options.limit 1) (new options : Roster ι ο) where
  limit_eq := rfl
  sound := by
    intro b hb
    cases hb
  running := Nat.le_refl _
  active := rfl

namespace Held

theorem running_le (h : r.Held limit) {b : Batch ι ο} (hb : r.pool.batch = some b) :
    r.pool.counts.running ≤ b.flights.length := by
  rw [← Pool.flights_of_batch hb]
  exact h.running

theorem length_active (h : r.Held limit) {b : Batch ι ο} (hb : r.pool.batch = some b) :
    r.active.length = 1 := by
  rw [h.active, Pool.isProcessing, hb]
  rfl

theorem active_eq_nil (h : r.Held limit) (hb : r.pool.batch = none) : r.active = [] := by
  rw [← List.length_eq_zero_iff, h.active, Pool.isProcessing, hb]
  rfl

theorem running_eq_zero (h : r.Held limit) (hb : r.pool.batch = none) :
    r.pool.counts.running = 0 := by
  have hrunning := h.running
  rw [Pool.flights_of_idle hb] at hrunning
  exact Nat.le_zero.mp hrunning

/-- A step that leaves the batch alone, and counts no more tasks as running. -/
theorem of_same (h : r.Held limit) {p : Pool ι ο} (hoptions : p.options = r.pool.options)
    (hbatch : p.batch = r.pool.batch) (hrunning : p.counts.running ≤ r.pool.counts.running) :
    ({ r with pool := p } : Roster ι ο).Held limit where
  limit_eq := by
    rw [hoptions]
    exact h.limit_eq
  sound := by
    intro b hb
    exact h.sound b (hbatch ▸ hb)
  running := by
    rw [Pool.flights, hbatch]
    exact Nat.le_trans hrunning h.running
  active := by
    rw [Pool.isProcessing, hbatch]
    exact h.active

/-- A step that changes the batch that is on. -/
theorem of_batch (h : r.Held limit) {b b' : Batch ι ο} (hb : r.pool.batch = some b) {p : Pool ι ο}
    (hoptions : p.options = r.pool.options) (hbatch : p.batch = some b') (hsound : b'.Sound limit)
    (hrunning : p.counts.running ≤ b'.flights.length) :
    ({ r with pool := p } : Roster ι ο).Held limit where
  limit_eq := by
    rw [hoptions]
    exact h.limit_eq
  sound := by
    intro c hc
    obtain rfl := Option.some.inj (hbatch.symm.trans hc)
    exact hsound
  running := by
    rw [Pool.flights_of_batch hbatch]
    exact hrunning
  active := by
    rw [Pool.isProcessing, hbatch]
    exact h.length_active hb

/-- A task in flight is joined or lost. -/
theorem land (h : r.Held limit) {b b' : Batch ι ο} {f : Flight ι ο} {number : Nat}
    (hb : r.pool.batch = some b) (hf : b.flights.find? (fun f => f.number = number) = some f)
    {p : Pool ι ο} (hoptions : p.options = r.pool.options) (hbatch : p.batch = some b')
    (hflights : b'.flights = b.flights.filter fun f => f.number ≠ number)
    (hdispatched : b'.dispatched = b.dispatched)
    (hrunning : p.counts.running = r.pool.counts.running - 1) :
    ({ r with pool := p } : Roster ι ο).Held limit := by
  have hsound := h.sound b hb
  have hless := h.running_le hb
  have hone := (hsound.perm_find hf).length_eq
  rw [List.length_cons, ← hflights] at hone
  refine h.of_batch hb hoptions hbatch (hsound.without number hflights hdispatched) ?_
  omega

/-- A batch ends with nothing that counts as running. -/
theorem leave (h : r.Held limit) {b : Batch ι ο} (hb : r.pool.batch = some b) {p : Pool ι ο}
    (hoptions : p.options = r.pool.options) (hbatch : p.batch = none)
    (hrunning : p.counts.running = 0) :
    ({ r with pool := p, active := r.active.tail } : Roster ι ο).Held limit where
  limit_eq := by
    rw [hoptions]
    exact h.limit_eq
  sound := by
    intro c hc
    rw [hbatch] at hc
    cases hc
  running := by
    rw [hrunning]
    exact Nat.zero_le _
  active := by
    rw [List.length_tail, h.length_active hb, Pool.isProcessing, hbatch]
    rfl

theorem execute (h : r.Held limit) (hact : r.act? .execute = some r') : r'.Held limit := by
  rw [act?] at hact
  cases hb : r.pool.batch with
  | some b =>
    rw [Pool.begin_of_batch hb] at hact
    obtain rfl := Option.some.inj hact
    exact ⟨h.limit_eq, h.sound, h.running, h.active⟩
  | none =>
    rw [Pool.begin_of_idle hb] at hact
    obtain rfl := Option.some.inj hact
    refine ⟨h.limit_eq, fun b hb' => ?_, ?_, ?_⟩
    · rw [← Option.some.inj hb']
      exact Pool.sound_opening r.pool limit
    · exact Nat.le_of_eq (h.running_eq_zero hb)
    · rw [List.length_append, h.active_eq_nil hb]
      rfl

theorem dispatch (h : r.Held limit) {p : Pool ι ο} (hp : r.pool.dispatch? = some p) :
    ({ r with pool := p } : Roster ι ο).Held limit := by
  obtain ⟨b, t, rest, hb, -, hroom, -, rfl⟩ := Pool.dispatch?_eq_some_iff.mp hp
  rw [h.limit_eq] at hroom
  refine h.of_batch hb rfl rfl ((h.sound b hb).snoc hroom t rfl rfl) ?_
  rw [List.length_append]
  exact Nat.succ_le_succ (h.running_le hb)

theorem cancel (h : r.Held limit) (hact : r.act? .cancel = some r') : r'.Held limit := by
  obtain rfl := Option.some.inj hact
  cases hb : r.pool.batch with
  | none =>
    have hactive := h.active
    rw [h.active_eq_nil hb] at hactive ⊢
    rw [Pool.cancel_of_idle hb]
    exact ⟨h.limit_eq, h.sound, h.running, hactive⟩
  | some b =>
    rw [Pool.cancel_of_batch hb]
    exact h.leave hb rfl rfl (Nat.sub_eq_zero_of_le (h.running_le hb))

end Held

/-! ## 2. Steps and runs -/

/-- **Every action keeps the invariant.** -/
theorem held_act? (h : r.Held limit) (hact : r.act? a = some r') : r'.Held limit := by
  cases a with
  | add task =>
    obtain rfl := Option.some.inj hact
    exact h.of_same rfl rfl (Nat.le_refl _)
  | listen listener =>
    obtain rfl := Option.some.inj hact
    exact h.of_same rfl rfl (Nat.le_refl _)
  | stop =>
    obtain rfl := Option.some.inj hact
    exact h.of_same rfl rfl (Nat.le_refl _)
  | reset =>
    obtain rfl := Option.some.inj hact
    exact h.of_same rfl rfl (Nat.zero_le _)
  | execute => exact h.execute hact
  | dispatch =>
    obtain ⟨p, hp, rfl⟩ := Option.map_eq_some_iff.mp hact
    exact h.dispatch hp
  | join number outcome took =>
    obtain ⟨p, hp, rfl⟩ := Option.map_eq_some_iff.mp hact
    obtain ⟨b, f, hb, hf, rfl⟩ := Pool.join?_eq_some_iff.mp hp
    refine h.land hb hf rfl rfl rfl rfl ?_
    dsimp only [PoolCounts.record]
    split <;> rfl
  | lose number =>
    obtain ⟨p, hp, rfl⟩ := Option.map_eq_some_iff.mp hact
    obtain ⟨b, f, hb, hf, rfl⟩ := Pool.lose?_eq_some_iff.mp hp
    exact h.land hb hf rfl rfl rfl rfl rfl
  | finish =>
    obtain ⟨⟨results, p⟩, hp, rfl⟩ := Option.map_eq_some_iff.mp hact
    obtain ⟨b, hb, hflights, -, -, rfl⟩ := Pool.finish?_eq_some_iff.mp hp
    have hrunning := h.running_le hb
    rw [hflights] at hrunning
    exact h.leave hb rfl rfl (Nat.le_zero.mp hrunning)
  | cancel => exact h.cancel hact

theorem held_run? (h : r.Held limit) (hrun : r.run? as = some r') : r'.Held limit :=
  Machine.run?_induction (fun _ _ _ _ h hact => held_act? h hact) h hrun

/-- The roster of a run of a new pool. -/
theorem exists_run? {options : PoolOptions} {p : Pool ι ο}
    (hrun : (Pool.new options).run? as = some p) :
    ∃ r : Roster ι ο, (new options).run? as = some r ∧ r.pool = p := by
  have hmap : ((new options).run? as).map Roster.pool = some p := by
    rw [map_pool_run?]
    exact hrun
  exact Option.map_eq_some_iff.mp hmap

/-! ## 3. The next batch -/

/-- Without a new call, a pool on which no batch is on stays that way. -/
theorem idle_act? {p q : Pool ι ο} (hp : p.batch = none) (ha : a ≠ .execute)
    (hact : p.act? a = some q) : q.batch = none := by
  cases a with
  | execute => exact absurd rfl ha
  | add task | listen listener | stop | reset =>
    obtain rfl := Option.some.inj hact
    exact hp
  | dispatch =>
    obtain ⟨b, -, -, hb, -⟩ := Pool.dispatch?_eq_some_iff.mp hact
    exact absurd (hp.symm.trans hb) (Option.some_ne_none b).symm
  | join number outcome took =>
    obtain ⟨b, -, hb, -⟩ := Pool.join?_eq_some_iff.mp hact
    exact absurd (hp.symm.trans hb) (Option.some_ne_none b).symm
  | lose number =>
    obtain ⟨b, -, hb, -⟩ := Pool.lose?_eq_some_iff.mp hact
    exact absurd (hp.symm.trans hb) (Option.some_ne_none b).symm
  | finish =>
    obtain ⟨⟨results, p'⟩, hfinish, rfl⟩ := Option.map_eq_some_iff.mp hact
    obtain ⟨b, hb, -⟩ := Pool.finish?_eq_some_iff.mp hfinish
    exact absurd (hp.symm.trans hb) (Option.some_ne_none b).symm
  | cancel =>
    obtain rfl := Option.some.inj hact
    rw [Pool.cancel_of_idle hp]
    exact hp

theorem idle_run? {p q : Pool ι ο} (hp : p.batch = none) (has : ∀ a ∈ as, a ≠ .execute)
    (hrun : p.run? as = some q) : q.batch = none := by
  induction as generalizing p with
  | nil =>
    obtain rfl := Option.some.inj hrun
    exact hp
  | cons a as ih =>
    obtain ⟨p', hp', hrest⟩ := Option.bind_eq_some_iff.mp hrun
    have ha : a ≠ .execute := has a List.mem_cons_self
    exact ih (idle_act? hp ha hp') (fun c hc => has c (List.mem_cons_of_mem a hc)) hrest

/-- The end of a batch and its cancellation leave no batch on. -/
theorem idle_of_end {p q : Pool ι ο} (ha : a = .finish ∨ a = .cancel)
    (hact : p.act? a = some q) : q.batch = none := by
  obtain rfl | rfl := ha
  · obtain ⟨⟨results, p'⟩, hfinish, rfl⟩ := Option.map_eq_some_iff.mp hact
    obtain ⟨b, -, -, -, -, rfl⟩ := Pool.finish?_eq_some_iff.mp hfinish
    rfl
  · obtain rfl := Option.some.inj hact
    rfl

/-! ## 4. Exclusion -/

/-- **One batch at a time, and never more tasks than the limit.**  After every run of a new
pool, whatever the order of additions, listeners, stops, resets, calls, dispatches, joins,
losses, ends and cancellations, and with `r` the roster of the run:

* no more tasks are in flight than the limit, where a limit of zero counts as one;
* no more tasks count as running than are in flight, and none if no call runs a batch;
* at most one call runs a batch, and the pool is processing exactly if one does;
* while one does, the next call is refused as such, and the pool is what it was;
* while none does, the next call begins a batch;
* after the end or the cancellation of a batch, the next call begins a batch, whatever else
  happens in between. -/
theorem one_batch_within_the_limit {options : PoolOptions} {p : Pool ι ο}
    (hrun : (Pool.new options).run? as = some p) :
    ∃ r : Roster ι ο, (new options).run? as = some r ∧ r.pool = p ∧
      p.flights.length ≤ max options.limit 1 ∧
      p.counts.running ≤ p.flights.length ∧
      (r.active = [] → p.counts.running = 0) ∧
      r.active.length ≤ 1 ∧
      (p.isProcessing = true ↔ r.active.length = 1) ∧
      (r.active ≠ [] → p.begin = .error .alreadyProcessing ∧ p.act? .execute = some p ∧
        r.act? .execute = some { r with calls := r.calls + 1 }) ∧
      (r.active = [] → ∃ q, p.begin = .ok q ∧ q.isProcessing = true) ∧
      ∀ a later q, a = .finish ∨ a = .cancel → (∀ c ∈ later, c ≠ .execute) →
        p.run? (a :: later) = some q → ∃ q', q.begin = .ok q' ∧ q'.isProcessing = true := by
  obtain ⟨r, hr, rfl⟩ := exists_run? hrun
  have hheld := held_run? (held_new options) hr
  have hnext : ∀ q : Pool ι ο, q.batch = none → ∃ q', q.begin = .ok q' ∧ q'.isProcessing = true :=
    fun q hq => ⟨_, Pool.begin_of_idle hq, rfl⟩
  have hlater : ∀ a later q, a = .finish ∨ a = .cancel → (∀ c ∈ later, c ≠ .execute) →
      r.pool.run? (a :: later) = some q → ∃ q', q.begin = .ok q' ∧ q'.isProcessing = true := by
    intro a later q ha hno hq
    obtain ⟨p', hp', hrest⟩ := Option.bind_eq_some_iff.mp hq
    exact hnext q (idle_run? (idle_of_end ha hp') hno hrest)
  refine ⟨r, hr, rfl, ?_, hheld.running, ?_⟩
  · cases hb : r.pool.batch with
    | none =>
      rw [Pool.flights_of_idle hb]
      exact Nat.zero_le _
    | some b =>
      rw [Pool.flights_of_batch hb]
      exact (hheld.sound b hb).length_le
  -- Whether a batch is on decides the rest.
  cases hb : r.pool.batch with
  | none =>
    have hactive := hheld.active_eq_nil hb
    refine ⟨fun _ => hheld.running_eq_zero hb, ?_, ?_, fun hne => absurd hactive hne,
      fun _ => hnext _ hb, hlater⟩
    · rw [hactive]
      exact Nat.zero_le _
    · rw [hactive, Pool.isProcessing, hb]
      simp
  | some b =>
    have hone := hheld.length_active hb
    have hne : r.active ≠ [] := by
      intro hnil
      rw [hnil] at hone
      exact absurd hone (by decide)
    have hrefused := Pool.begin_of_batch hb
    refine ⟨fun hnil => absurd hnil hne, Nat.le_of_eq hone, ?_, fun _ => ⟨hrefused, ?_, ?_⟩,
      fun hnil => absurd hnil hne, hlater⟩
    · rw [Pool.isProcessing, hb]
      exact ⟨fun _ => hone, fun _ => rfl⟩
    · rw [Pool.act?, hrefused]
    · rw [act?, hrefused]

/-- With the limit zero one task is in flight.  The pool is reset meanwhile, so that nothing
counts as running; a second call is refused, and after the cancellation the next one is not. -/
theorem one_batch_within_the_limit_reset :
    let task : Task Unit Nat := ⟨"a", (), fun _ => ⟨[], .value 7⟩⟩
    let as : List (PoolAction Unit Nat) :=
      [.add task, .add task, .execute, .dispatch, .reset, .execute]
    ∃ p, (Pool.new ⟨0, false, none⟩).run? as = some p ∧ p.dispatch? = none ∧
      p.flights.length = 1 ∧ p.counts.running = 0 ∧ p.flights.length ≤ max 0 1 ∧
      p.begin = .error .alreadyProcessing ∧ ∃ q, p.cancel.begin = .ok q := by
  intro task as
  have hrun : ∃ p, (Pool.new ⟨0, false, none⟩).run? as = some p ∧ p.dispatch? = none ∧
      p.flights.length = 1 ∧ p.counts.running = 0 ∧ p.isProcessing = true :=
    ⟨_, rfl, rfl, rfl, rfl, rfl⟩
  obtain ⟨p, h, hdispatch, hflights, hrunning, hbusy⟩ := hrun
  obtain ⟨r, -, -, hlimit, -, -, -, hprocessing, hrefused, -, hlater⟩ :=
    one_batch_within_the_limit h
  have hne : r.active ≠ [] := by
    intro hnil
    have hone := hprocessing.mp hbusy
    rw [hnil] at hone
    exact absurd hone (by decide)
  obtain ⟨q, hq, -⟩ := hlater .cancel [] p.cancel (.inr rfl) (by simp) rfl
  exact ⟨p, h, hdispatch, hflights, hrunning, hlimit, (hrefused hne).1, q, hq⟩

end Roster
end AnalysisRunner
