import Mathlib.Algebra.GroupWithZero.Nat
import AnalysisRunner.Pool.Timeline
import AnalysisRunner.Proofs.EraseDups

/-!
# One task on a timeline

A timeline keeps what its tasks are doing in three lists, of sleepers, of alarms and of
tasks that have ended, and every entry carries the number of its task.  What the lists
hold under one number is the `View` of that task.  Whatever a task does changes its own
view only, and the change depends on nothing but the view, the clock and the limit
(`view_proceed`, `view_start`, `view_resume`).  So many tasks that go on one after the
other are as many separate changes (`view_foldl_start`, `view_foldl_resume`,
`view_wakeAt`).

What is told of a task that has ended is said once, in words of its work (`Outcome.Tells`,
`Task.tells_outcomeAfter`).  On a timeline a task ends on its own if all its pauses fit into
the limit, and otherwise it is given up (`Task.outcome`).  A task that has started
is on its way to it (`View.Stands`): it has ended with its outcome, or it sleeps, and
what it has still to sleep adds up to the pauses of its work.
-/

namespace AnalysisRunner

variable {ι ο : Type}

/-! ## 1. Outcomes -/

/-- The outcome of work under a time limit, if it ends on its own within the limit. -/
def Work.verdict (w : Work ο) (limit : Option Nat) : Option (Outcome ο) :=
  if limit.all (w.pauses.sum ≤ ·) then some w.ending.outcome else none

/-- The outcome of a task under a time limit. -/
def Task.outcome (t : Task ι ο) (limit : Option Nat) : Outcome ο :=
  (t.run.verdict limit).getD (.timedOut t.id (limit.getD 0))

/-- What is told of work that was run under a name: of work that ended on its own, its value,
the chain of its causes or the message of its crash, and of work that was given up after so
many milliseconds, that it was. -/
inductive Outcome.Tells (id : String) (w : Work ο) : Option Nat → Outcome ο → Prop
  | value {o : ο} (h : w.ending = .value o) : Tells id w none (.output o)
  | error {causes : List String} (h : w.ending = .error causes) :
    Tells id w none (.failure (": ".intercalate causes))
  | crash {message : String} (h : w.ending = .crash (some message)) :
    Tells id w none (.failure ("Task panicked: " ++ message))
  | silentCrash (h : w.ending = .crash none) :
    Tells id w none (.failure "Task panicked: unknown panic")
  | givenUp (limit : Nat) :
    Tells id w (some limit)
      (.failure ("Task " ++ id ++ " timed out after " ++ decimal limit ++ "ms"))

/-- The outcome of a task that ended on its own or was given up after so many milliseconds. -/
def Task.outcomeAfter (t : Task ι ο) : Option Nat → Outcome ο
  | none => t.run.ending.outcome
  | some limit => .timedOut t.id limit

/-- **What becomes of a value, an error, a crash and a timeout.** -/
theorem Task.tells_outcomeAfter (t : Task ι ο) (givenUp : Option Nat) :
    Outcome.Tells t.id t.run givenUp (t.outcomeAfter givenUp) := by
  cases givenUp with
  | some limit => exact .givenUp limit
  | none =>
    unfold outcomeAfter
    cases hending : t.run.ending with
    | value o => exact .value hending
    | error causes => exact .error hending
    | crash message =>
      cases message with
      | some message => exact .crash hending
      | none => exact .silentCrash hending

/-- On a timeline a task is given up if its pauses exceed the limit. -/
theorem Task.outcome_eq (t : Task ι ο) (limit : Option Nat) :
    t.outcome limit =
      t.outcomeAfter (if limit.any (· < t.run.pauses.sum) then limit else none) := by
  unfold outcome Work.verdict
  cases limit with
  | none => rfl
  | some limit =>
    by_cases hfits : t.run.pauses.sum ≤ limit
    · simp [hfits, Nat.not_lt.mpr hfits, outcomeAfter]
    · simp [hfits, Nat.lt_of_not_le hfits, outcomeAfter]

/-- The pauses of a task that take time. -/
def Task.pauses (t : Task ι ο) : List Nat :=
  t.run.pauses.filter (· ≠ 0)

theorem Task.sum_pauses (t : Task ι ο) : t.pauses.sum = t.run.pauses.sum := by
  unfold pauses
  induction t.run.pauses with
  | nil => rfl
  | cons p ps ih =>
    by_cases hp : p = 0
    · rw [List.filter_cons_of_neg (by simp [hp]), ih, List.sum_cons, hp, Nat.zero_add]
    · rw [List.filter_cons_of_pos (by simp [hp]), List.sum_cons, ih, List.sum_cons]

/-! ## 2. Views -/

/-- What a timeline holds about one task. -/
structure View (ι ο : Type) where
  sleepers : List (Sleeper ι ο)
  alarms : List Nat
  ended : List (Outcome ο)

namespace View

/-- The view of a task that has not started, or was joined. -/
def blank : View ι ο :=
  ⟨[], [], []⟩

/-- The view of a task that has ended. -/
def finished (o : Outcome ο) : View ι ο :=
  ⟨[], [], [o]⟩

/-- The view of a task that goes on with some pauses left. -/
def proceed (limit : Option Nat) (now : Nat) (f : Flight ι ο) (deadline : Option Nat)
    (v : View ι ο) : List Nat → View ι ο
  | [] => ⟨[], [], v.ended ++ [f.task.run.ending.outcome]⟩
  | pause :: later =>
    if deadline.any (· ≤ now) then ⟨[], [], v.ended ++ [.timedOut f.task.id (limit.getD 0)]⟩
    else ⟨[⟨f, now + pause, later, deadline⟩], v.alarms ++ [now + pause], v.ended⟩

/-- The view of a task when the alarm for its limit is set. -/
def setLimit (v : View ι ο) : Option Nat → View ι ο
  | some due => if v.sleepers.isEmpty then v else { v with alarms := v.alarms ++ [due] }
  | none => v

/-- The view of a task that starts. -/
def start (limit : Option Nat) (now : Nat) (f : Flight ι ο) (v : View ι ο) : View ι ο :=
  let deadline := limit.map (now + ·)
  (v.proceed limit now f deadline f.task.pauses).setLimit deadline

/-- The view of a task at an alarm. -/
def resume (limit : Option Nat) (now : Nat) (v : View ι ο) : View ι ο :=
  match v.sleepers with
  | [] => v
  | s :: _ =>
    if s.wake ≤ now then v.proceed limit now s.flight s.deadline s.later
    else ⟨[], [], v.ended ++ [.timedOut s.flight.task.id (limit.getD 0)]⟩

/-- The view of a task when the alarms up to an instant are taken away. -/
def quiet (instant : Nat) (v : View ι ο) : View ι ο :=
  { v with alarms := v.alarms.filter (instant < ·) }

end View

namespace Timeline

/-- The view of the task with a number. -/
def view (t : Timeline ι ο) (n : Nat) : View ι ο where
  sleepers := t.sleepers.filter fun s => s.flight.number = n
  alarms := (t.alarms.filter fun a => a.number = n).map Alarm.due
  ended := (t.ended.filter fun x => x.1 = n).map Prod.snd

/-! ## 3. What a task does to the views -/

/-- Taking one number out changes nothing under another. -/
theorem filter_of_ne {α : Type} (number : α → Nat) (xs : List α) {m n : Nat} (h : n ≠ m) :
    (xs.filter fun x => number x ≠ m).filter (fun x => number x = n) =
      xs.filter fun x => number x = n := by
  rw [List.filter_filter]
  apply List.filter_congr
  intro x _
  by_cases hx : number x = n
  · simp [hx, h]
  · simp [hx]

/-- Taking one number out leaves nothing under it. -/
theorem filter_self {α : Type} (number : α → Nat) (xs : List α) (n : Nat) :
    (xs.filter fun x => number x ≠ n).filter (fun x => number x = n) = [] := by
  rw [List.filter_filter, List.filter_eq_nil_iff]
  intro x _
  simp

theorem view_ending (t : Timeline ι ο) (f : Flight ι ο) (o : Outcome ο) (n : Nat) :
    (t.ending f o).view n =
      if n = f.number then ⟨[], [], (t.view n).ended ++ [o]⟩ else t.view n := by
  unfold ending view
  dsimp only
  split
  · rename_i hn
    subst hn
    rw [filter_self (fun s : Sleeper ι ο => s.flight.number), filter_self Alarm.number,
      List.filter_append, List.filter_cons_of_pos (by simp), List.map_append]
    rfl
  · rename_i hn
    rw [filter_of_ne (fun s : Sleeper ι ο => s.flight.number) _ hn, filter_of_ne Alarm.number _ hn,
      List.filter_append, List.filter_cons_of_neg (by simpa using fun h => hn h.symm),
      List.filter_nil, List.append_nil]

/-- A task that goes on changes its own view. -/
theorem view_proceed (t : Timeline ι ο) (f : Flight ι ο) (pauses : List Nat)
    (deadline : Option Nat) (n : Nat) :
    (t.proceed f pauses deadline).view n =
      if n = f.number then (t.view n).proceed t.pool.options.timeout t.now f deadline pauses
      else t.view n := by
  cases pauses with
  | nil => exact view_ending t f _ n
  | cons pause later =>
    unfold proceed View.proceed
    dsimp only
    split
    · rw [view_ending]
    · unfold view
      dsimp only
      split
      · rename_i hn
        subst hn
        rw [List.filter_append, filter_self (fun s : Sleeper ι ο => s.flight.number),
          List.filter_append, List.filter_cons_of_pos (by simp), List.filter_cons_of_pos (by simp),
          List.map_append]
        rfl
      · rename_i hn
        have hn' : ¬ f.number = n := fun h => hn h.symm
        rw [List.filter_append, filter_of_ne (fun s : Sleeper ι ο => s.flight.number) _ hn,
          List.filter_append, List.filter_cons_of_neg (by simpa using hn'),
          List.filter_cons_of_neg (by simpa using hn')]
        simp

/-- Neither pool nor clock is touched by a task that goes on. -/
theorem proceed_frame (t : Timeline ι ο) (f : Flight ι ο) (pauses : List Nat)
    (deadline : Option Nat) : (t.proceed f pauses deadline).pool = t.pool ∧
      (t.proceed f pauses deadline).now = t.now ∧
      (t.proceed f pauses deadline).launched = t.launched := by
  cases pauses with
  | nil => exact ⟨rfl, rfl, rfl⟩
  | cons pause later =>
    unfold proceed
    dsimp only
    split
    · exact ⟨rfl, rfl, rfl⟩
    · exact ⟨rfl, rfl, rfl⟩

/-- The alarm for the limit of a task changes the view of the task. -/
theorem view_setLimit (t : Timeline ι ο) (m : Nat) (deadline : Option Nat) (n : Nat) :
    (t.setLimit m deadline).view n =
      if n = m then (t.view n).setLimit deadline else t.view n := by
  cases deadline with
  | none => exact (ite_self _).symm
  | some due =>
    have hany : (t.sleepers.any fun s => s.flight.number = m) = true ↔
        ¬ (t.view m).sleepers.isEmpty = true := by
      simp [view, List.filter_eq_nil_iff]
    unfold setLimit View.setLimit
    dsimp only
    by_cases hn : n = m
    · subst hn
      rw [if_pos rfl]
      by_cases hsleeps : (t.view n).sleepers.isEmpty = true
      · rw [if_neg fun hsome => hany.mp hsome hsleeps, if_pos hsleeps]
      · rw [if_pos (hany.mpr hsleeps), if_neg hsleeps]
        unfold view
        dsimp only
        rw [List.filter_append, List.filter_cons_of_pos (by simp), List.map_append]
        rfl
    · rw [if_neg hn]
      split
      · unfold view
        dsimp only
        rw [List.filter_append, List.filter_cons_of_neg (by simpa using fun h => hn h.symm),
          List.filter_nil, List.append_nil]
      · rfl

theorem setLimit_frame (t : Timeline ι ο) (m : Nat) (deadline : Option Nat) :
    (t.setLimit m deadline).pool = t.pool ∧ (t.setLimit m deadline).now = t.now ∧
      (t.setLimit m deadline).launched = t.launched := by
  unfold setLimit
  split
  · split
    · exact ⟨rfl, rfl, rfl⟩
    · exact ⟨rfl, rfl, rfl⟩
  · exact ⟨rfl, rfl, rfl⟩

/-- A task that starts changes its own view. -/
theorem view_start (t : Timeline ι ο) (f : Flight ι ο) (n : Nat) :
    (t.start f).view n =
      if n = f.number then (t.view n).start t.pool.options.timeout t.now f else t.view n := by
  unfold start
  dsimp only
  rw [view_setLimit, view_proceed]
  split
  · rfl
  · rfl

/-- A task that starts moves neither pool nor clock, and is counted. -/
theorem start_frame (t : Timeline ι ο) (f : Flight ι ο) : (t.start f).pool = t.pool ∧
    (t.start f).now = t.now ∧ (t.start f).launched = f.number + 1 := by
  obtain ⟨hpool, hnow, hlaunched⟩ := setLimit_frame
    ((t.launch f).proceed f f.task.pauses (t.pool.options.timeout.map (t.now + ·))) f.number
    (t.pool.options.timeout.map (t.now + ·))
  obtain ⟨hpool', hnow', hlaunched'⟩ := proceed_frame (t.launch f) f f.task.pauses
    (t.pool.options.timeout.map (t.now + ·))
  exact ⟨hpool.trans hpool', hnow.trans hnow', hlaunched.trans hlaunched'⟩

/-- A task at an alarm changes its own view. -/
theorem view_resume (t : Timeline ι ο) (m n : Nat) :
    (t.resume m).view n =
      if n = m then (t.view n).resume t.pool.options.timeout t.now else t.view n := by
  have hhead : (t.view m).sleepers.head? = t.sleepers.find? fun s => s.flight.number = m :=
    List.head?_filter ..
  unfold resume
  cases hfind : t.sleepers.find? fun s => s.flight.number = m with
  | none =>
    rw [hfind, List.head?_eq_none_iff] at hhead
    show t.view n = _
    by_cases hn : n = m
    · rw [if_pos hn, hn, View.resume, hhead]
    · rw [if_neg hn]
  | some s =>
    rw [hfind] at hhead
    obtain ⟨rest, hrest⟩ := List.head?_eq_some_iff.mp hhead
    have hnumber : s.flight.number = m := by simpa using List.find?_some hfind
    dsimp only
    by_cases hwake : s.wake ≤ t.now
    · rw [if_pos hwake, view_proceed, hnumber]
      split
      · rename_i hn
        rw [hn, View.resume, hrest]
        dsimp only
        rw [if_pos hwake]
      · rfl
    · rw [if_neg hwake, view_ending, hnumber]
      split
      · rename_i hn
        rw [hn, View.resume, hrest]
        dsimp only
        rw [if_neg hwake]
      · rfl

theorem resume_frame (t : Timeline ι ο) (n : Nat) : (t.resume n).pool = t.pool ∧
    (t.resume n).now = t.now ∧ (t.resume n).launched = t.launched := by
  unfold resume
  split
  · exact ⟨rfl, rfl, rfl⟩
  · split
    · exact proceed_frame t _ _ _
    · exact ⟨rfl, rfl, rfl⟩

/-! ## 4. Many tasks, one after the other -/

/-- Tasks that start one after the other. -/
theorem view_foldl_start (fs : List (Flight ι ο)) (t : Timeline ι ο)
    (hnodup : (fs.map Flight.number).Nodup) :
    (fs.foldl start t).pool = t.pool ∧ (fs.foldl start t).now = t.now ∧
    (∀ f ∈ fs, (fs.foldl start t).view f.number =
      (t.view f.number).start t.pool.options.timeout t.now f) ∧
    ∀ n, n ∉ fs.map Flight.number → (fs.foldl start t).view n = t.view n := by
  induction fs generalizing t with
  | nil => exact ⟨rfl, rfl, fun f hf => absurd hf List.not_mem_nil, fun _ _ => rfl⟩
  | cons f fs ih =>
    rw [List.map_cons, List.nodup_cons] at hnodup
    obtain ⟨hpool, hnow, -⟩ := t.start_frame f
    obtain ⟨hpool', hnow', hstarted, hother⟩ := ih (t.start f) hnodup.2
    rw [hpool, hnow] at hstarted
    refine ⟨hpool'.trans hpool, hnow'.trans hnow, ?_, ?_⟩
    · intro g hg
      rw [List.foldl_cons]
      rcases List.mem_cons.mp hg with rfl | hg
      · rw [hother _ hnodup.1, view_start, if_pos rfl]
      · have hne : g.number ≠ f.number := fun h => hnodup.1 (h ▸ List.mem_map_of_mem hg)
        rw [hstarted g hg, view_start, if_neg hne]
    · intro n hn
      rw [List.map_cons, List.mem_cons, not_or] at hn
      rw [List.foldl_cons, hother n hn.2, view_start, if_neg hn.1]

/-- The last one that starts is counted. -/
theorem launched_foldl_start (fs : List (Flight ι ο)) (f : Flight ι ο) (t : Timeline ι ο) :
    ((fs ++ [f]).foldl start t).launched = f.number + 1 := by
  rw [List.foldl_append]
  exact (start_frame _ f).2.2

/-- Tasks that go on one after the other. -/
theorem view_foldl_resume (ns : List Nat) (t : Timeline ι ο) (hnodup : ns.Nodup) :
    (ns.foldl resume t).pool = t.pool ∧ (ns.foldl resume t).now = t.now ∧
    (ns.foldl resume t).launched = t.launched ∧
    ∀ n, (ns.foldl resume t).view n =
      if n ∈ ns then (t.view n).resume t.pool.options.timeout t.now else t.view n := by
  induction ns generalizing t with
  | nil => exact ⟨rfl, rfl, rfl, fun _ => (if_neg List.not_mem_nil).symm⟩
  | cons m ns ih =>
    rw [List.nodup_cons] at hnodup
    obtain ⟨hpool, hnow, hlaunched⟩ := t.resume_frame m
    obtain ⟨hpool', hnow', hlaunched', hview⟩ := ih (t.resume m) hnodup.2
    refine ⟨hpool'.trans hpool, hnow'.trans hnow, hlaunched'.trans hlaunched, ?_⟩
    intro n
    rw [List.foldl_cons, hview, hpool, hnow, view_resume]
    by_cases hn : n = m
    · rw [if_pos hn, if_neg (hn ▸ hnodup.1), if_pos (hn ▸ List.mem_cons_self ..)]
    · rw [if_neg hn]
      by_cases hmem : n ∈ ns
      · rw [if_pos hmem, if_pos (List.mem_cons_of_mem _ hmem)]
      · rw [if_neg hmem, if_neg (by simp [hn, hmem])]

/-- **The clock moves**: the alarms up to the instant are gone, and the tasks that had
one have gone on. -/
theorem view_wakeAt (t : Timeline ι ο) {instant : Nat} (hnow : t.now ≤ instant) :
    (t.wakeAt instant).pool = t.pool ∧ (t.wakeAt instant).now = instant ∧
    (t.wakeAt instant).launched = t.launched ∧
    ∀ n, (t.wakeAt instant).view n =
      if ∃ d ∈ (t.view n).alarms, d ≤ instant then
        ((t.view n).quiet instant).resume t.pool.options.timeout instant
      else (t.view n).quiet instant := by
  have hmax : max t.now instant = instant := Nat.max_eq_right hnow
  have hquiet : ∀ n,
      view { t with now := instant, alarms := t.alarms.filter fun a => ¬ a.due ≤ instant } n =
      (t.view n).quiet instant := by
    intro n
    have halarms : ((t.alarms.filter fun a => ¬ a.due ≤ instant).filter fun a => a.number = n).map
        Alarm.due =
          ((t.alarms.filter fun a => a.number = n).map Alarm.due).filter (instant < ·) := by
      rw [List.filter_map, List.filter_filter, List.filter_filter]
      congr 1
      apply List.filter_congr
      intro a _
      simp [Bool.and_comm]
    unfold view View.quiet
    dsimp only
    rw [halarms]
  have hmem : ∀ n, n ∈ ((t.alarms.filter fun a => a.due ≤ instant).map Alarm.number).eraseDups ↔
      ∃ d ∈ (t.view n).alarms, d ≤ instant := by
    intro n
    rw [List.mem_eraseDups]
    simp only [view, List.mem_map, List.mem_filter, decide_eq_true_eq]
    constructor
    · rintro ⟨a, ⟨ha, hdue⟩, rfl⟩
      exact ⟨a.due, ⟨a, ⟨ha, rfl⟩, rfl⟩, hdue⟩
    · rintro ⟨d, ⟨a, ⟨ha, rfl⟩, rfl⟩, hdue⟩
      exact ⟨a, ⟨ha, hdue⟩, rfl⟩
  obtain ⟨hpool, hnow', hlaunched, hview⟩ := view_foldl_resume
    ((t.alarms.filter fun a => a.due ≤ instant).map Alarm.number).eraseDups
    { t with now := instant, alarms := t.alarms.filter fun a => ¬ a.due ≤ instant }
    (nodup_eraseDups _)
  unfold wakeAt
  dsimp only
  rw [hmax]
  refine ⟨hpool, hnow', hlaunched, fun n => ?_⟩
  rw [hview, hquiet]
  simp only [hmem]

end Timeline

/-! ## 5. On the way to the outcome -/

/-- Whether a task that goes on at an instant with some pauses left is in time: these
pauses end when all the pauses of its work are over, counted from its start, and the
limit counts from there too. -/
def Flight.Due (f : Flight ι ο) (limit : Option Nat) (instant : Nat) (pauses : List Nat)
    (deadline : Option Nat) : Prop :=
  ∃ began, deadline = limit.map (began + ·) ∧
    instant + pauses.sum = began + f.task.run.pauses.sum ∧ ∀ p ∈ pauses, p ≠ 0

namespace Flight.Due

variable {f : Flight ι ο} {limit deadline : Option Nat} {instant : Nat} {pauses : List Nat}

/-- A task at its start. -/
theorem start (f : Flight ι ο) (limit : Option Nat) (now : Nat) :
    f.Due limit now f.task.pauses (limit.map (now + ·)) := by
  refine ⟨now, rfl, by rw [f.task.sum_pauses], ?_⟩
  intro p hp
  simpa [Task.pauses] using (List.mem_filter.mp hp).2

/-- A task that is over within its limit has the outcome of its work. -/
theorem outcome_of_le (h : f.Due limit instant [] deadline) (hle : ∀ d ∈ deadline, instant ≤ d) :
    f.task.outcome limit = f.task.run.ending.outcome := by
  obtain ⟨began, rfl, hsum, -⟩ := h
  have hfits : limit.all (f.task.run.pauses.sum ≤ ·) = true := by
    cases limit with
    | none => rfl
    | some l =>
      have hl := hle (began + l) rfl
      rw [List.sum_nil] at hsum
      rw [Option.all_some, decide_eq_true_iff]
      omega
  rw [Task.outcome, Work.verdict, if_pos hfits, Option.getD_some]

/-- A task that would end after its limit is given up. -/
theorem outcome_of_lt (h : f.Due limit instant pauses deadline) {d : Nat} (hd : d ∈ deadline)
    (hlt : d < instant + pauses.sum) :
    f.task.outcome limit = .timedOut f.task.id (limit.getD 0) := by
  obtain ⟨began, rfl, hsum, -⟩ := h
  obtain ⟨l, rfl, rfl⟩ := Option.map_eq_some_iff.mp hd
  have hlate : ¬ (some l).all (f.task.run.pauses.sum ≤ ·) = true := by
    rw [Option.all_some, decide_eq_true_iff]
    omega
  rw [Task.outcome, Work.verdict, if_neg hlate, Option.getD_none]

/-- A task that pauses once more. -/
theorem pause {p : Nat} (h : f.Due limit instant (p :: pauses) deadline) :
    p ≠ 0 ∧ f.Due limit (instant + p) pauses deadline := by
  obtain ⟨began, hdeadline, hsum, hpos⟩ := h
  rw [List.sum_cons, ← Nat.add_assoc] at hsum
  exact ⟨hpos p (List.mem_cons_self ..),
    began, hdeadline, hsum, fun q hq => hpos q (List.mem_cons_of_mem _ hq)⟩

end Flight.Due

namespace View

/-- A task that has started: it sleeps, in time and with the alarms for its waking and
its limit set, or it has ended with its outcome. -/
inductive Stands (limit : Option Nat) (now : Nat) (f : Flight ι ο) : View ι ο → Prop
  | asleep (s : Sleeper ι ο) (ds : List Nat) (flight : s.flight = f)
      (due : f.Due limit s.wake s.later s.deadline)
      (alarms : ∀ d, d ∈ ds ↔ d = s.wake ∨ d ∈ s.deadline) (later : ∀ d ∈ ds, now < d) :
      Stands limit now f ⟨[s], ds, []⟩
  | finished : Stands limit now f (finished (f.task.outcome limit))

/-- How many steps a task takes at most until it is joined. -/
def weight (task : Task ι ο) (v : View ι ο) : Nat :=
  match v.sleepers, v.ended with
  | [], [] => 3 + task.pauses.length
  | s :: _, _ => 2 + s.later.length
  | [], _ :: _ => 1

variable {limit : Option Nat} {now : Nat} {f : Flight ι ο}

/-- A task that goes on in time ends with its outcome or pauses once more, before its
limit. -/
theorem proceed_cases {v : View ι ο} {pauses : List Nat} {deadline : Option Nat}
    (hv : v.ended = []) (hdue : f.Due limit now pauses deadline)
    (hle : ∀ d ∈ deadline, now ≤ d) :
    v.proceed limit now f deadline pauses = finished (f.task.outcome limit) ∨
    ∃ p later, pauses = p :: later ∧ p ≠ 0 ∧ (∀ d ∈ deadline, now < d) ∧
      f.Due limit (now + p) later deadline ∧
      v.proceed limit now f deadline pauses =
        ⟨[⟨f, now + p, later, deadline⟩], v.alarms ++ [now + p], []⟩ := by
  cases pauses with
  | nil =>
    left
    rw [proceed, hv, hdue.outcome_of_le hle]
    rfl
  | cons p later =>
    obtain ⟨hp, hdue'⟩ := hdue.pause
    rw [proceed, hv]
    by_cases hlate : deadline.any (· ≤ now) = true
    · left
      obtain ⟨d, hd, hdnow⟩ : ∃ d ∈ deadline, d ≤ now := by
        cases deadline with
        | none => cases hlate
        | some d => exact ⟨d, rfl, of_decide_eq_true hlate⟩
      have hlt : d < now + (p :: later).sum := by
        rw [List.sum_cons]
        omega
      rw [if_pos hlate, hdue.outcome_of_lt hd hlt]
      rfl
    · right
      rw [if_neg hlate]
      refine ⟨p, later, rfl, hp, ?_, hdue', rfl⟩
      intro d hd
      obtain rfl : deadline = some d := hd
      simpa using hlate

/-- **A task that starts is on its way.** -/
theorem stands_start (limit : Option Nat) (now : Nat) (f : Flight ι ο) :
    (blank.start limit now f).Stands limit now f ∧
      (blank.start limit now f).weight f.task < (blank : View ι ο).weight f.task := by
  have hle : ∀ d ∈ limit.map (now + ·), now ≤ d := by
    intro d hd
    obtain ⟨l, -, rfl⟩ := Option.map_eq_some_iff.mp hd
    exact Nat.le_add_right now l
  unfold start
  dsimp only
  rcases proceed_cases (v := blank) rfl (Flight.Due.start f limit now) hle with
    hover | ⟨p, later, hpauses, hp, hlt, hdue, hsleeps⟩
  · have hset : ∀ deadline, (finished (f.task.outcome limit) : View ι ο).setLimit deadline =
        finished (f.task.outcome limit) := by
      intro deadline
      cases deadline <;> rfl
    rw [hover, hset]
    exact ⟨.finished, by simp only [weight, finished, blank]; omega⟩
  · rw [hsleeps]
    generalize limit.map (now + ·) = deadline at hlt hdue
    have hweight : 2 + later.length < 3 + f.task.pauses.length := by
      rw [hpauses, List.length_cons]
      omega
    have hset : View.setLimit ⟨[⟨f, now + p, later, deadline⟩], [] ++ [now + p], []⟩ deadline =
        (⟨[⟨f, now + p, later, deadline⟩], (now + p) :: deadline.toList, []⟩ : View ι ο) := by
      cases deadline <;> rfl
    rw [blank, hset]
    refine ⟨.asleep _ _ rfl hdue ?_ ?_, hweight⟩
    · intro d
      rw [List.mem_cons, Option.mem_toList]
      exact Iff.rfl
    · intro d hd
      rcases List.mem_cons.mp hd with rfl | hd
      · omega
      · exact hlt d (Option.mem_toList.mp hd)

/-- **A task that wakes is on its way**, if no alarm was missed. -/
theorem stands_resume {v : View ι ο} {instant : Nat} (h : v.Stands limit now f)
    (hnone : ∀ d ∈ v.alarms, instant ≤ d) (hsome : ∃ d ∈ v.alarms, d ≤ instant) :
    ((v.quiet instant).resume limit instant).Stands limit instant f ∧
      ((v.quiet instant).resume limit instant).weight f.task < v.weight f.task := by
  obtain ⟨d, hd, hdle⟩ := hsome
  cases h with
  | finished => cases hd
  | asleep s ds flight due alarms later =>
    subst flight
    dsimp only at hnone hd
    have hdeadline : ∀ d ∈ s.deadline, instant ≤ d := fun d h => hnone d ((alarms d).mpr (.inr h))
    have hwake : instant ≤ s.wake := hnone _ ((alarms _).mpr (.inl rfl))
    unfold resume quiet
    dsimp only
    by_cases hdue : s.wake ≤ instant
    · have hnow : s.wake = instant := Nat.le_antisymm hdue hwake
      rw [if_pos hdue]
      rw [hnow] at due
      rcases proceed_cases (v := ⟨[s], ds.filter (instant < ·), []⟩) rfl due hdeadline with
        hover | ⟨p, rest, hrest, hp, hlt, due', hsleeps⟩
      · rw [hover]
        exact ⟨.finished, by simp only [weight, finished]; omega⟩
      · rw [hsleeps]
        refine ⟨.asleep _ _ rfl due' ?_ ?_, by simp only [weight, hrest, List.length_cons]; omega⟩
        · intro x
          rw [List.mem_append, List.mem_filter, List.mem_singleton, alarms, decide_eq_true_iff]
          constructor
          · rintro (⟨rfl | hx, hltx⟩ | rfl)
            · omega
            · exact .inr hx
            · exact .inl rfl
          · rintro (rfl | hx)
            · exact .inr rfl
            · exact .inl ⟨.inr hx, hlt x hx⟩
        · intro x hx
          rcases List.mem_append.mp hx with hx | hx
          · exact of_decide_eq_true (List.mem_filter.mp hx).2
          · rw [List.mem_singleton.mp hx]
            omega
    · -- only the alarm for the limit can have gone off
      have hd' : d ∈ s.deadline := by
        rcases (alarms d).mp hd with rfl | h
        · exact absurd hdle hdue
        · exact h
      rw [if_neg hdue, ← due.outcome_of_lt hd' (by omega)]
      exact ⟨.finished, by simp only [weight, List.nil_append]; omega⟩

/-- A task without an alarm at an instant sleeps through it. -/
theorem stands_quiet {v : View ι ο} (h : v.Stands limit now f) (instant : Nat)
    (hnone : ∀ d ∈ v.alarms, instant < d) : v.quiet instant = v ∧ v.Stands limit instant f := by
  have hsame : v.quiet instant = v := by
    unfold quiet
    rw [List.filter_eq_self.mpr fun d hd => decide_eq_true (hnone d hd)]
  refine ⟨hsame, ?_⟩
  cases h with
  | finished => exact .finished
  | asleep s ds flight due alarms later => exact .asleep s ds flight due alarms hnone

end View
end AnalysisRunner
