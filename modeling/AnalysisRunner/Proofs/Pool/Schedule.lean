import Mathlib.Algebra.Order.BigOperators.Group.List
import Mathlib.Algebra.Order.Group.Nat
import AnalysisRunner.Proofs.Pool.Round
import AnalysisRunner.Proofs.Pool.View

/-!
# A batch on a timeline runs to its end

A timeline is one way for a batch to go: it decides when tasks end.  Here it is shown
that what it does is a round of the pool in which every task is joined with its own
outcome (`execute_eq`).  With that, all that holds of rounds in general holds of batches on
a timeline.

* `Live` is what holds of a timeline while its batch is on.  Tasks in flight have not
  started or are on their way to their outcome, and nothing is kept of any other task.
* Every step keeps `Live`, and brings the end of the batch nearer (`left`): a join takes
  a task out, a start and an alarm bring a task further.
* There is always a step to take (`isSome_nextAlarm?`): a task in flight that waits for
  nothing has an alarm set, and an empty batch with tasks in the queue would have
  dispatched one.
-/

namespace AnalysisRunner

variable {ι ο : Type}

/-! ## 1. Filling the room -/

namespace Pool

theorem dispatch?_dispatchUpTo {n : Nat} {p : Pool ι ο} (h : p.queue.length ≤ n) :
    (dispatchUpTo n p).dispatch? = none := by
  induction n generalizing p with
  | zero =>
    have hqueue : p.queue = [] := List.length_eq_zero_iff.mp (Nat.le_zero.mp h)
    show p.dispatch? = none
    refine Option.eq_none_iff_forall_ne_some.mpr fun q hq => ?_
    obtain ⟨b, t, rest, -, hcons, -⟩ := dispatch?_eq_some_iff.mp hq
    exact absurd (hqueue.symm.trans hcons) (List.cons_ne_nil _ _).symm
  | succ n ih =>
    rw [dispatchUpTo]
    cases hq : p.dispatch? with
    | none => exact hq
    | some q =>
      obtain ⟨b, t, rest, -, hqueue, -, -, rfl⟩ := dispatch?_eq_some_iff.mp hq
      rw [hqueue, List.length_cons] at h
      exact ih (Nat.le_of_succ_le_succ h)

theorem options_dispatchUpTo (n : Nat) (p : Pool ι ο) : (dispatchUpTo n p).options = p.options := by
  induction n generalizing p with
  | zero => rfl
  | succ n ih =>
    rw [dispatchUpTo]
    cases hq : p.dispatch? with
    | none => rfl
    | some q =>
      obtain ⟨b, t, rest, -, -, -, -, rfl⟩ := dispatch?_eq_some_iff.mp hq
      exact ih _

/-- Dispatches join nothing. -/
theorem joins_replicate (k : Nat) (p : Pool ι ο) : p.joins (List.replicate k .dispatch) = [] := by
  refine Machine.gather_eq_nil (fun a ha p => ?_) p
  rw [List.eq_of_mem_replicate ha]
  rfl

/-- When the room is filled, nothing more can be dispatched. -/
theorem dispatch?_fill (p : Pool ι ο) : p.fill.dispatch? = none :=
  dispatch?_dispatchUpTo (Nat.le_refl _)

end Pool

namespace Timeline

/-! ## 2. Live timelines -/

/-- What holds of a timeline while a batch is on. -/
structure Live (t : Timeline ι ο) (b : Batch ι ο) : Prop where
  batch : t.pool.batch = some b
  sound : b.Sound t.pool.options.limit
  launched_le : t.launched ≤ b.dispatched
  absent : ∀ n, (∀ f ∈ b.flights, f.number ≠ n) → t.view n = .blank
  waiting : ∀ f ∈ b.flights, t.launched ≤ f.number → t.view f.number = .blank
  stands : ∀ f ∈ b.flights, f.number < t.launched →
    (t.view f.number).Stands t.pool.options.timeout t.now f

/-- A bound on the steps until the batch is over. -/
def left (t : Timeline ι ο) (b : Batch ι ο) : Nat :=
  1 + (t.pool.queue.map fun task => View.blank.weight task).sum +
    (b.flights.map fun f => (t.view f.number).weight f.task).sum

/-- What brings one task in flight further, and no task back, brings the end nearer. -/
theorem left_lt {t t' : Timeline ι ο} {b : Batch ι ο} (hpool : t'.pool = t.pool)
    (hle : ∀ f ∈ b.flights, (t'.view f.number).weight f.task ≤ (t.view f.number).weight f.task)
    (hlt : ∃ f ∈ b.flights, (t'.view f.number).weight f.task < (t.view f.number).weight f.task) :
    left t' b < left t b := by
  unfold left
  rw [hpool]
  exact Nat.add_lt_add_left (List.sum_lt_sum _ _ hle hlt) _

theorem mem_alarms_view {t : Timeline ι ο} {d n : Nat} :
    d ∈ (t.view n).alarms ↔ ⟨d, n⟩ ∈ t.alarms := by
  simp only [view, List.mem_map, List.mem_filter, decide_eq_true_eq]
  constructor
  · rintro ⟨a, ⟨ha, rfl⟩, rfl⟩
    exact ha
  · intro h
    exact ⟨_, ⟨h, rfl⟩, rfl⟩

namespace Live

variable {t : Timeline ι ο} {b : Batch ι ο}

/-- Nothing is kept under a number, or it is that of a task on its way. -/
theorem view_cases (h : t.Live b) (n : Nat) :
    t.view n = .blank ∨ ∃ f ∈ b.flights, f.number = n ∧ f.number < t.launched ∧
      (t.view n).Stands t.pool.options.timeout t.now f := by
  by_cases hf : ∃ f ∈ b.flights, f.number = n
  · obtain ⟨f, hf, rfl⟩ := hf
    by_cases hwait : t.launched ≤ f.number
    · exact .inl (h.waiting f hf hwait)
    · have hlt := Nat.lt_of_not_le hwait
      exact .inr ⟨f, hf, rfl, hlt, h.stands f hf hlt⟩
  · exact .inl (h.absent n fun f hmem hn => hf ⟨f, hmem, hn⟩)

/-- An alarm is for a task that has started, and still to come. -/
theorem exists_of_alarm (h : t.Live b) {d n : Nat} (hd : d ∈ (t.view n).alarms) :
    (∃ f ∈ b.flights, f.number = n ∧ f.number < t.launched) ∧ t.now < d := by
  rcases h.view_cases n with hblank | ⟨f, hf, hn, hlt, hstands⟩
  · rw [hblank] at hd
    cases hd
  · refine ⟨⟨f, hf, hn, hlt⟩, ?_⟩
    generalize t.view n = v at hstands hd
    cases hstands with
    | finished => cases hd
    | asleep s ds flight due alarms later => exact later d hd

/-- A number that has ended is that of a task in flight, and the outcome is its own. -/
theorem exists_of_ended (h : t.Live b) {n : Nat} {o : Outcome ο} {rest : List (Nat × Outcome ο)}
    (hended : t.ended = (n, o) :: rest) :
    ∃ f ∈ b.flights, f.number = n ∧ o = f.task.outcome t.pool.options.timeout ∧
      t.view n = .finished o ∧ view { t with ended := rest } n = .blank := by
  have hview : (t.view n).ended = o :: (view { t with ended := rest } n).ended := by
    unfold view
    dsimp only
    rw [hended, List.filter_cons_of_pos (by simp), List.map_cons]
  rcases h.view_cases n with hblank | ⟨f, hf, hn, -, hstands⟩
  · rw [hblank] at hview
    cases hview
  · refine ⟨f, hf, hn, ?_⟩
    have hsame : (view { t with ended := rest } n).sleepers = (t.view n).sleepers ∧
        (view { t with ended := rest } n).alarms = (t.view n).alarms := ⟨rfl, rfl⟩
    generalize view { t with ended := rest } n = w at hview hsame
    generalize t.view n = v at hstands hview hsame
    cases hstands with
    | asleep s ds flight due alarms later => cases hview
    | finished =>
      obtain ⟨ho, hrest⟩ := List.cons.inj hview
      obtain ⟨sleepers, alarms, ended⟩ := w
      obtain ⟨rfl, rfl⟩ := hsame
      obtain rfl := hrest
      exact ⟨ho.symm, by rw [ho], rfl⟩

/-! ## 3. Steps of the pool -/

/-- A dispatch puts a task in flight that has not started. -/
theorem dispatch (h : t.Live b) {q : Pool ι ο} (hq : t.pool.dispatch? = some q) :
    ∃ b', Live { t with pool := q } b' ∧ left { t with pool := q } b' = left t b := by
  obtain ⟨b₀, task, rest, hb₀, hqueue, hroom, -, rfl⟩ := Pool.dispatch?_eq_some_iff.mp hq
  obtain rfl := Option.some.inj (h.batch.symm.trans hb₀)
  have hnew : t.view b.dispatched = .blank :=
    h.absent _ fun f hf => Nat.ne_of_lt (h.sound.numbers_lt f hf)
  refine ⟨_,
    ⟨rfl, h.sound.snoc hroom task rfl rfl, Nat.le_succ_of_le h.launched_le, ?_, ?_, ?_⟩, ?_⟩
  · intro n hn
    exact h.absent n fun f hf => hn f (List.mem_append_left _ hf)
  · intro f hf hlaunched
    rcases List.mem_append.mp hf with hf | hf
    · exact h.waiting f hf hlaunched
    · rw [List.mem_singleton.mp hf]
      exact hnew
  · intro f hf hlaunched
    rcases List.mem_append.mp hf with hf | hf
    · exact h.stands f hf hlaunched
    · rw [List.mem_singleton.mp hf] at hlaunched
      exact absurd h.launched_le (Nat.not_le.mpr hlaunched)
  · unfold left
    dsimp only
    rw [hqueue, List.map_cons, List.sum_cons, List.map_append, List.sum_append, List.map_singleton,
      List.sum_singleton]
    show 1 + _ + (_ + (t.view b.dispatched).weight task) = _
    rw [hnew]
    show 1 + _ + ((b.flights.map fun f => (t.view f.number).weight f.task).sum + _) = _
    omega

/-- Filling the room is a run of dispatches. -/
theorem dispatchUpTo (h : t.Live b) (n : Nat) :
    ∃ b' k, Live { t with pool := Pool.dispatchUpTo n t.pool } b' ∧
      left { t with pool := Pool.dispatchUpTo n t.pool } b' = left t b ∧
      t.pool.run? (List.replicate k .dispatch) = some (Pool.dispatchUpTo n t.pool) := by
  induction n generalizing t b with
  | zero => exact ⟨b, 0, h, rfl, rfl⟩
  | succ n ih =>
    rw [Pool.dispatchUpTo]
    cases hq : t.pool.dispatch? with
    | none => exact ⟨b, 0, h, rfl, rfl⟩
    | some q =>
      obtain ⟨b', hlive, hleft⟩ := h.dispatch hq
      obtain ⟨b'', k, hlive', hleft', hrun⟩ := ih hlive
      refine ⟨b'', k + 1, hlive', hleft'.trans hleft, ?_⟩
      rw [List.replicate_succ]
      exact Pool.run?_cons_eq_some_iff.mpr ⟨q, hq, hrun⟩

/-- A join takes a task with its own outcome out. -/
theorem join (h : t.Live b) {n : Nat} {o : Outcome ο} {rest : List (Nat × Outcome ο)}
    (hended : t.ended = (n, o) :: rest) :
    ∃ (f : Flight ι ο) (q : Pool ι ο) (b' : Batch ι ο),
      t.pool.join? n o (t.elapsed n) = some q ∧
      t.pool.joinedBy (.join n o (t.elapsed n)) = some (f.task, o) ∧
      o = f.task.outcome t.pool.options.timeout ∧ Live { t with pool := q, ended := rest } b' ∧
      left { t with pool := q, ended := rest } b' + 1 = left t b := by
  obtain ⟨f, hf, hn, ho, hover, hblank⟩ := h.exists_of_ended hended
  have hfind : b.flights.find? (fun g => g.number = n) = some f := by
    have hfilter := Batch.Sound.filter_number h.sound.nodup hf
    rw [hn] at hfilter
    rw [← List.head?_filter, hfilter]
    rfl
  have hother : ∀ m, m ≠ n → view { t with ended := rest } m = t.view m := by
    intro m hm
    unfold view
    dsimp only
    rw [hended, List.filter_cons_of_neg (by simpa using fun hnm => hm hnm.symm)]
  refine ⟨f, _, _, Pool.join?_eq_some_iff.mpr ⟨b, f, h.batch, hfind, rfl⟩, ?_, ho,
    ⟨rfl, h.sound.without n rfl rfl, h.launched_le, ?_, ?_, ?_⟩, ?_⟩
  · rw [Pool.joinedBy, Pool.flights_of_batch h.batch, hfind]
    rfl
  · intro m hm
    by_cases hmn : m = n
    · exact hmn ▸ hblank
    · refine (hother m hmn).trans (h.absent m fun g hg hgm => ?_)
      exact hm g (List.mem_filter.mpr ⟨hg, by simpa [hgm] using hmn⟩) hgm
  · intro g hg hlaunched
    obtain ⟨hg, hgn⟩ := List.mem_filter.mp hg
    exact (hother _ (by simpa using hgn)).trans (h.waiting g hg hlaunched)
  · intro g hg hlaunched
    obtain ⟨hg, hgn⟩ := List.mem_filter.mp hg
    show (view { t with ended := rest } g.number).Stands _ _ _
    rw [hother _ (by simpa using hgn)]
    exact h.stands g hg hlaunched
  · have hperm := ((h.sound.perm_find hfind).map
      fun g => (t.view g.number).weight g.task).sum_eq
    rw [List.map_cons, List.sum_cons, hn, hover] at hperm
    have hrest : ((b.flights.filter fun g => g.number ≠ n).map fun g =>
        (view { t with ended := rest } g.number).weight g.task) =
        (b.flights.filter fun g => g.number ≠ n).map fun g => (t.view g.number).weight g.task := by
      apply List.map_congr_left
      intro g hg
      rw [hother _ (by simpa using (List.mem_filter.mp hg).2)]
    have hone : (View.finished o : View ι ο).weight f.task = 1 := rfl
    unfold left
    dsimp only
    show 1 + _ + ((b.flights.filter fun g => g.number ≠ n).map fun g =>
      (view { t with ended := rest } g.number).weight g.task).sum + 1 = _
    rw [hrest]
    omega

/-- A join and what is dispatched into the room it leaves are a run of the pool. -/
theorem join_fill (h : t.Live b) {n : Nat} {o : Outcome ο} {rest : List (Nat × Outcome ο)}
    (hended : t.ended = (n, o) :: rest) :
    ∃ (f : Flight ι ο) (b' : Batch ι ο) (k : Nat), Live (t.join n o rest) b' ∧
      left (t.join n o rest) b' + 1 = left t b ∧ (t.join n o rest).pool.dispatch? = none ∧
      (t.join n o rest).pool.options = t.pool.options ∧
      t.pool.run? (.join n o (t.elapsed n) :: List.replicate k .dispatch) =
        some (t.join n o rest).pool ∧
      t.pool.joins (.join n o (t.elapsed n) :: List.replicate k .dispatch) = [(f.task, o)] ∧
      o = f.task.outcome t.pool.options.timeout := by
  obtain ⟨f, q, b₁, hq, hjoined, ho, hlive, hleft⟩ := h.join hended
  obtain ⟨b₂, k, hlive', hleft', hrun⟩ := hlive.dispatchUpTo q.queue.length
  have hact : t.pool.act? (.join n o (t.elapsed n)) = some q := hq
  -- what is written into the journal does not matter
  obtain ⟨journal, hjoin⟩ : ∃ journal,
      t.join n o rest = { t with pool := q.fill, ended := rest, journal } := by
    rw [Timeline.join, hq]
    exact ⟨_, rfl⟩
  have hoptions : q.fill.options = t.pool.options := by
    obtain ⟨b₀, f₀, -, -, hq'⟩ := Pool.join?_eq_some_iff.mp hq
    rw [Pool.fill, Pool.options_dispatchUpTo, hq']
  rw [hjoin]
  refine ⟨f, b₂, k, ⟨hlive'.batch, hlive'.sound, hlive'.launched_le, hlive'.absent,
    hlive'.waiting, hlive'.stands⟩, ?_, q.dispatch?_fill, hoptions,
    Pool.run?_cons_eq_some_iff.mpr ⟨q, hact, hrun⟩, ?_, ho⟩
  · rw [← hleft, ← hleft']
    rfl
  · have hnone := q.joins_replicate k
    rw [Pool.joins] at hnone
    rw [Pool.joins, Machine.gather_cons hact, hjoined, hnone]
    rfl

/-! ## 4. Steps of the clock -/

theorem mem_waiting (h : t.Live b) {f : Flight ι ο} :
    f ∈ t.waiting ↔ f ∈ b.flights ∧ t.launched ≤ f.number := by
  rw [Timeline.waiting, h.batch]
  dsimp only
  rw [List.mem_filter, decide_eq_true_iff]

theorem waiting_sorted (h : t.Live b) : (t.waiting.map Flight.number).Pairwise (· < ·) := by
  rw [Timeline.waiting, h.batch]
  exact h.sound.numbers.sublist (List.filter_sublist.map Flight.number)

/-- The last task to start is the last one in flight. -/
theorem launched_start (h : t.Live b) (hwaiting : t.waiting ≠ []) :
    ∃ last ∈ t.waiting, (t.waiting.foldl Timeline.start t).launched = last.number + 1 ∧
      ∀ f ∈ b.flights, f.number ≤ last.number := by
  obtain ⟨fs, last, hlast⟩ := List.eq_nil_or_concat' t.waiting |>.resolve_left hwaiting
  have hmem : last ∈ t.waiting := by
    rw [hlast]
    exact List.mem_append_right _ (List.mem_singleton_self _)
  refine ⟨last, hmem, by rw [hlast]; exact launched_foldl_start fs last t, ?_⟩
  intro f hf
  by_cases hwait : t.launched ≤ f.number
  · have hf' := h.mem_waiting.mpr ⟨hf, hwait⟩
    have hsorted := h.waiting_sorted
    rw [hlast, List.map_append, List.pairwise_append] at hsorted
    rw [hlast] at hf'
    rcases List.mem_append.mp hf' with hf' | hf'
    · exact Nat.le_of_lt (hsorted.2.2 f.number (List.mem_map_of_mem hf') last.number (by simp))
    · rw [List.mem_singleton.mp hf']
  · exact Nat.le_trans (Nat.le_of_not_le hwait) (h.mem_waiting.mp hmem).2

/-- All tasks that have not started start. -/
theorem start (h : t.Live b) (hwaiting : t.waiting ≠ []) :
    (t.waiting.foldl Timeline.start t).pool = t.pool ∧ Live (t.waiting.foldl Timeline.start t) b ∧
      left (t.waiting.foldl Timeline.start t) b < left t b := by
  obtain ⟨hpool, hnow, hstarted, hother⟩ := view_foldl_start t.waiting t
    (h.waiting_sorted.imp fun hlt => Nat.ne_of_lt hlt)
  obtain ⟨last, hlast, hlaunched, hall⟩ := h.launched_start hwaiting
  have hflight := (h.mem_waiting.mp hlast).1
  have hview : ∀ f ∈ b.flights, ((t.waiting.foldl Timeline.start t).view f.number).Stands
      t.pool.options.timeout t.now f ∧
      ((t.waiting.foldl Timeline.start t).view f.number).weight f.task ≤
        (t.view f.number).weight f.task ∧
      (f ∈ t.waiting → ((t.waiting.foldl Timeline.start t).view f.number).weight f.task <
        (t.view f.number).weight f.task) := by
    intro f hf
    by_cases hwait : t.launched ≤ f.number
    · have hstart := View.stands_start t.pool.options.timeout t.now f
      rw [hstarted f (h.mem_waiting.mpr ⟨hf, hwait⟩), h.waiting f hf hwait]
      exact ⟨hstart.1, Nat.le_of_lt hstart.2, fun _ => hstart.2⟩
    · have hnot : f.number ∉ t.waiting.map Flight.number := by
        intro hn
        obtain ⟨g, hg, hgn⟩ := List.mem_map.mp hn
        exact hwait (hgn ▸ (h.mem_waiting.mp hg).2)
      rw [hother _ hnot]
      refine ⟨h.stands f hf (Nat.lt_of_not_le hwait), Nat.le_refl _, fun hw => ?_⟩
      exact absurd (h.mem_waiting.mp hw).2 hwait
  refine ⟨hpool, ?_, ?_⟩
  · refine ⟨hpool ▸ h.batch, hpool ▸ h.sound, ?_, ?_, ?_, ?_⟩
    · rw [hlaunched]
      exact h.sound.numbers_lt last hflight
    · intro n hn
      rw [hother n ?_]
      · exact h.absent n hn
      · intro hmemn
        obtain ⟨g, hg, hgn⟩ := List.mem_map.mp hmemn
        exact hn g (h.mem_waiting.mp hg).1 hgn
    · intro f hf hle
      rw [hlaunched] at hle
      exact absurd (hall f hf) (Nat.not_le.mpr hle)
    · intro f hf _
      rw [hpool, hnow]
      exact (hview f hf).1
  · exact left_lt hpool (fun f hf => (hview f hf).2.1)
      ⟨last, hflight, (hview last hflight).2.2 hlast⟩

/-- The clock moves to the next alarm. -/
theorem wake (h : t.Live b) {instant : Nat} (hnext : t.nextAlarm? = some instant) :
    (t.wakeAt instant).pool = t.pool ∧ Live (t.wakeAt instant) b ∧
      left (t.wakeAt instant) b < left t b := by
  obtain ⟨hmin, hleast⟩ := List.min?_eq_some_iff.mp hnext
  obtain ⟨a, ha, hdue⟩ := List.mem_map.mp hmin
  have halarm : instant ∈ (t.view a.number).alarms := by
    rw [mem_alarms_view, ← hdue]
    exact ha
  have hfirst : ∀ n, ∀ d ∈ (t.view n).alarms, instant ≤ d := by
    intro n d hd
    exact hleast d (List.mem_map.mpr ⟨_, mem_alarms_view.mp hd, rfl⟩)
  obtain ⟨⟨f₀, hf₀, hnumber, hlaunched₀⟩, hnow⟩ := h.exists_of_alarm halarm
  obtain ⟨hpool, hnow', hlaunched, hviews⟩ := view_wakeAt t (Nat.le_of_lt hnow)
  have hblank : ∀ n, t.view n = .blank → (t.wakeAt instant).view n = .blank := by
    intro n hn
    rw [hviews, hn, if_neg]
    · rfl
    · rintro ⟨d, hd, -⟩
      cases hd
  have hview : ∀ f ∈ b.flights, f.number < t.launched →
      ((t.wakeAt instant).view f.number).Stands t.pool.options.timeout instant f ∧
      ((t.wakeAt instant).view f.number).weight f.task ≤ (t.view f.number).weight f.task ∧
      ((∃ d ∈ (t.view f.number).alarms, d ≤ instant) →
        ((t.wakeAt instant).view f.number).weight f.task < (t.view f.number).weight f.task) := by
    intro f hf hlt
    have hstands := h.stands f hf hlt
    rw [hviews]
    by_cases hrings : ∃ d ∈ (t.view f.number).alarms, d ≤ instant
    · rw [if_pos hrings]
      obtain ⟨hresumed, hweight⟩ := View.stands_resume hstands (hfirst f.number) hrings
      exact ⟨hresumed, Nat.le_of_lt hweight, fun _ => hweight⟩
    · rw [if_neg hrings]
      obtain ⟨hsame, hquiet⟩ := View.stands_quiet hstands instant
        fun d hd => Nat.lt_of_not_le fun hle => hrings ⟨d, hd, hle⟩
      rw [hsame]
      exact ⟨hquiet, Nat.le_refl _, fun hr => absurd hr hrings⟩
  refine ⟨hpool, ?_, ?_⟩
  · refine ⟨hpool ▸ h.batch, hpool ▸ h.sound, hlaunched ▸ h.launched_le, ?_, ?_, ?_⟩
    · intro n hn
      exact hblank n (h.absent n hn)
    · intro f hf hle
      exact hblank _ (h.waiting f hf (hlaunched ▸ hle))
    · intro f hf hlt
      rw [hpool, hnow']
      exact (hview f hf (hlaunched ▸ hlt)).1
  · refine left_lt hpool (fun f hf => ?_) ⟨f₀, hf₀, ?_⟩
    · by_cases hlt : f.number < t.launched
      · exact (hview f hf hlt).2.1
      · have hwait := h.waiting f hf (Nat.le_of_not_lt hlt)
        rw [hblank _ hwait, hwait]
    · exact (hview f₀ hf₀ hlaunched₀).2.2 ⟨instant, hnumber ▸ halarm, Nat.le_refl _⟩

/-- While a batch can go on, something is in flight: a task of the queue could be dispatched
otherwise. -/
theorem flights_ne_nil (h : t.Live b) (hlimit : 1 ≤ t.pool.options.limit)
    (hfull : t.pool.dispatch? = none) (hfinish : t.pool.finish? = none) : b.flights ≠ [] := by
  intro hnone
  have hgo : ¬ (t.pool.queue = [] ∨ t.pool.isHalted b = true) := by
    intro hover
    have hfinish' := Pool.finish?_eq_some_iff.mpr ⟨b, h.batch, hnone, hover, rfl, rfl⟩
    rw [hfinish] at hfinish'
    cases hfinish'
  rw [not_or] at hgo
  obtain ⟨task, rest, hqueue⟩ := List.exists_cons_of_ne_nil hgo.1
  have hdispatch := Pool.dispatch?_eq_some_iff.mpr ⟨b, task, rest, h.batch, hqueue,
    by rw [hnone]; exact hlimit, by simpa using hgo.2, rfl⟩
  rw [hfull] at hdispatch
  cases hdispatch

/-- **There is always a step to take.** -/
theorem isSome_nextAlarm? (h : t.Live b) (hlimit : 1 ≤ t.pool.options.limit)
    (hfull : t.pool.dispatch? = none) (hended : t.ended = []) (hfinish : t.pool.finish? = none)
    (hwaiting : t.waiting = []) : ∃ instant, t.nextAlarm? = some instant := by
  obtain ⟨f, fs, hfs⟩ := List.exists_cons_of_ne_nil (h.flights_ne_nil hlimit hfull hfinish)
  have hf : f ∈ b.flights := by
    rw [hfs]
    exact List.mem_cons_self ..
  have hlaunched : f.number < t.launched := by
    by_contra hlt
    have hmem := h.mem_waiting.mpr ⟨hf, Nat.le_of_not_lt hlt⟩
    rw [hwaiting] at hmem
    cases hmem
  have hstands := h.stands f hf hlaunched
  have halarm : ∃ d, d ∈ (t.view f.number).alarms := by
    have hnone : (t.view f.number).ended = [] := by
      unfold view
      dsimp only
      rw [hended]
      rfl
    generalize t.view f.number = v at hstands hnone
    cases hstands with
    | finished => cases hnone
    | asleep s ds flight due alarms later => exact ⟨s.wake, (alarms s.wake).mpr (.inl rfl)⟩
  obtain ⟨d, hd⟩ := halarm
  cases hnext : t.nextAlarm? with
  | some instant => exact ⟨instant, rfl⟩
  | none =>
    rw [nextAlarm?, List.min?_eq_none_iff, List.map_eq_nil_iff] at hnext
    have hmem := mem_alarms_view.mp hd
    rw [hnext] at hmem
    cases hmem

end Live

/-! ## 5. The whole batch -/

/-- **A live timeline runs to the end of its batch**, and its pool with it. -/
theorem runFor_over {fuel : Nat} {t : Timeline ι ο} {b : Batch ι ο} (h : t.Live b)
    (hlimit : 1 ≤ t.pool.options.limit) (hfull : t.pool.dispatch? = none)
    (hfuel : left t b ≤ fuel) :
    ∃ as q results r t', (∀ a ∈ as, a.isWork = true ∧ a.loses = false) ∧
      t.pool.run? as = some q ∧ q.finish? = some (results, r) ∧
      (∀ j ∈ t.pool.joins as, j.2 = j.1.outcome t.pool.options.timeout) ∧
      runFor fuel none t = (t', .over results) := by
  induction fuel generalizing t b with
  | zero =>
    unfold left at hfuel
    omega
  | succ fuel ih =>
    rw [runFor]
    cases hended : t.ended with
    | cons x rest =>
      obtain ⟨n, o⟩ := x
      obtain ⟨f, b', k, hlive, hleft, hfull', hoptions, hrun, hjoins, ho⟩ := h.join_fill hended
      obtain ⟨as, q, results, r, t', has, hrun', hfinish, hown, hover⟩ :=
        ih hlive (hoptions ▸ hlimit) hfull' (by omega)
      refine ⟨.join n o (t.elapsed n) :: List.replicate k .dispatch ++ as, q, results, r, t', ?_,
        Pool.run?_append_eq_some_iff.mpr ⟨_, hrun, hrun'⟩, hfinish, ?_, hover⟩
      · intro a ha
        rcases List.mem_append.mp ha with ha | ha
        · rcases List.mem_cons.mp ha with rfl | ha
          · exact ⟨rfl, rfl⟩
          · rw [List.eq_of_mem_replicate ha]
            exact ⟨rfl, rfl⟩
        · exact has a ha
      · intro j hj
        rw [Pool.joins, Machine.gather_append hrun] at hj
        rcases List.mem_append.mp hj with hj | hj
        · rw [Pool.joins] at hjoins
          rw [hjoins, List.mem_singleton] at hj
          rw [hj]
          exact ho
        · rw [← hoptions]
          exact hown j hj
    | nil =>
      dsimp only
      cases hfinish : t.pool.finish? with
      | some x =>
        obtain ⟨results, r⟩ := x
        refine ⟨[], t.pool, results, r, _, ?_, rfl, hfinish, ?_, rfl⟩
        · intro a ha
          cases ha
        · intro j hj
          cases hj
      | none =>
        dsimp only
        cases hwaiting : t.waiting with
        | cons f fs =>
          obtain ⟨hpool, hlive, hleft⟩ := h.start (by rw [hwaiting]; exact List.cons_ne_nil _ _)
          rw [hwaiting] at hpool hlive hleft
          have hrest := ih hlive (hpool ▸ hlimit) (hpool ▸ hfull) (by omega)
          rwa [hpool] at hrest
        | nil =>
          obtain ⟨instant, hnext⟩ := h.isSome_nextAlarm? hlimit hfull hended hfinish hwaiting
          obtain ⟨hpool, hlive, hleft⟩ := h.wake hnext
          have hrest := ih hlive (hpool ▸ hlimit) (hpool ▸ hfull) (by omega)
          rw [hpool] at hrest
          dsimp only
          rw [hnext]
          exact hrest

/-- At the beginning of a batch, the steps that are allowed for are enough. -/
theorem left_le_remaining {t : Timeline ι ο} {b : Batch ι ο} (h : t.Live b)
    (hlaunched : t.launched = 0) : left t b ≤ t.remaining := by
  have hweight : ∀ task : Task ι ο,
      (View.blank : View ι ο).weight task ≤ 6 + 2 * task.run.pauses.length := by
    intro task
    have hle : task.pauses.length ≤ task.run.pauses.length := List.length_filter_le _ _
    simp only [View.weight, View.blank]
    omega
  have hflights : (b.flights.map fun f => (t.view f.number).weight f.task).sum ≤
      (b.flights.map fun f => 6 + 2 * f.task.run.pauses.length).sum := by
    refine List.sum_le_sum fun f hf => ?_
    rw [h.waiting f hf (by omega)]
    exact hweight f.task
  have hqueue : (t.pool.queue.map fun task => (View.blank : View ι ο).weight task).sum ≤
      (t.pool.queue.map fun task => 6 + 2 * task.run.pauses.length).sum :=
    List.sum_le_sum fun task _ => hweight task
  have hallowed : ∀ tasks : List (Task ι ο),
      6 * tasks.length + 2 * (tasks.flatMap fun task => task.run.pauses).length =
        (tasks.map fun task => 6 + 2 * task.run.pauses.length).sum := by
    intro tasks
    induction tasks with
    | nil => rfl
    | cons task rest ih =>
      rw [List.flatMap_cons, List.length_cons, List.length_append, List.map_cons, List.sum_cons,
        ← ih]
      omega
  have hsame : (b.flights.map ((fun task : Task ι ο => 6 + 2 * task.run.pauses.length) ∘
      Flight.task)).sum = (b.flights.map fun f => 6 + 2 * f.task.run.pauses.length).sum := rfl
  have hall := hallowed (b.flights.map Flight.task ++ t.pool.queue)
  rw [List.map_append, List.sum_append, List.map_map] at hall
  unfold left remaining
  rw [h.batch]
  dsimp only [Option.map_some, Option.getD_some]
  omega

/-- **A batch on a timeline is a round of the pool** in which every task is joined with its
own outcome. -/
theorem execute_eq {p : Pool ι ο} (hidle : p.batch = none) (hlimit : 1 ≤ p.options.limit)
    (now : Nat) :
    ∃ ran results t, p.Round ran results ∧ (∀ j ∈ ran, j.2 = j.1.outcome p.options.timeout) ∧
      (ofPool p now).execute = .ok (results, t) := by
  obtain ⟨p₀, hp₀⟩ : ∃ p₀, p.begin = .ok p₀ := ⟨_, Pool.begin_of_idle hidle⟩
  obtain ⟨-, hp₀'⟩ := Pool.begin_eq_ok_iff.mp hp₀
  have hoptions : p₀.options = p.options := by rw [hp₀']
  have hlive : Live { ofPool p now with pool := p₀ } p.opening := by
    refine ⟨by rw [hp₀']; rfl, p.sound_opening _, Nat.le_refl _, fun _ _ => rfl, ?_, ?_⟩
    · intro f hf
      cases hf
    · intro f hf
      cases hf
  obtain ⟨b, k, hlive', -, hrun⟩ := hlive.dispatchUpTo p₀.queue.length
  have hfilled : p₀.fill.options = p.options := by
    rw [Pool.fill, Pool.options_dispatchUpTo, hoptions]
  obtain ⟨as, q, results, r, t, has, hrun', hfinish, hown, hover⟩ := runFor_over hlive'
    (hfilled ▸ hlimit) p₀.dispatch?_fill (left_le_remaining hlive' rfl)
  have hall : ∀ a ∈ List.replicate k .dispatch ++ as, a.isWork = true ∧ a.loses = false := by
    intro a ha
    rcases List.mem_append.mp ha with ha | ha
    · rw [List.eq_of_mem_replicate ha]
      exact ⟨rfl, rfl⟩
    · exact has a ha
  refine ⟨_, results, t, ⟨p₀, List.replicate k .dispatch ++ as, q, r, hp₀,
    fun a ha => (hall a ha).1, Pool.run?_append_eq_some_iff.mpr ⟨_, hrun, hrun'⟩, hfinish, rfl,
    Pool.losses_eq_nil (fun a ha => (hall a ha).2) p₀⟩, ?_, ?_⟩
  · intro j hj
    have hnone := p₀.joins_replicate k
    rw [Pool.joins] at hnone
    rw [Pool.joins, Machine.gather_append hrun, hnone, List.nil_append] at hj
    rw [← hfilled]
    exact hown j hj
  · have hbegin : (ofPool p now).begin = .ok { ofPool p now with pool := p₀.fill } := by
      show Except.map _ p.begin = _
      rw [hp₀]
      rfl
    have hout : runOut { ofPool p now with pool := p₀.fill } = (t, .over results) := hover
    rw [execute, hbegin, Except.map, hout]

/-- **Every task of a batch that failures do not halt gets its own outcome.** -/
theorem get?_execute {p : Pool ι ο} (hidle : p.batch = none) (hlimit : 1 ≤ p.options.limit)
    (hstop : p.options.stopOnError = false) (hids : (p.queue.map Task.id).Nodup) (now : Nat) :
    ∃ results t, (ofPool p now).execute = .ok (results, t) ∧
      ∀ task ∈ p.queue, results.get? task.id = some (task.outcome p.options.timeout) := by
  obtain ⟨ran, results, t, hround, hown, hexecute⟩ := execute_eq hidle hlimit now
  obtain ⟨front, rest, hqueue, hran, hrest⟩ := hround.queue
  refine ⟨results, t, hexecute, fun task htask => ?_⟩
  have hall : rest = [] := by
    by_contra hleft
    exact absurd (hrest hleft).1 (by rw [hstop]; exact Bool.false_ne_true)
  rw [hqueue, hall, List.append_nil] at htask
  obtain ⟨j, hj, rfl⟩ := List.mem_map.mp (hran.mem_iff.mpr htask)
  exact (hround.get?_eq_some_iff hids).mpr ⟨j, hj, rfl, hown j hj⟩

end Timeline
end AnalysisRunner
