import AnalysisRunner.Proofs.EraseDups
import AnalysisRunner.Watch.Session

/-!
# Every change is handed out once

A watcher and the dispatcher of its session run side by side.  The watcher sends events into a
channel.  The dispatcher does one of three things at a time, and often more than one of them is
possible: it takes the next event, it hands out a window whose time is over, or, once the session
is told to end, it stops.  After it has stopped it takes what is still in the channel, hands out
what the window holds, and is done.  `Relay` is this as a machine, in which whatever is
possible may come next.

Nothing is lost and nothing is handed out twice, in whatever order it happens.  The changes that
were sent can be cut into pieces: first one piece for each batch that was handed out, then what
the window holds, then what is in the channel (`Relay.Accounts`).  Every step moves a change from
one of these to the one before.  When the dispatcher is done, the last two are empty
(`Relay.every_change_is_handed_out_once`).

A window keeps the last change of every path, in the place of the first one
(`Change.IsBatchOf.place`).
-/

namespace AnalysisRunner

/-! ## 1. Batches -/

namespace Change

/-- What a change is about. -/
def about (c : Change) : PathKey :=
  c.path.components

/-- Whether a batch sums up changes: for every path that they are about it holds the last of them,
and the paths stand in the order in which they first occurred. -/
structure IsBatchOf (segment batch : List Change) : Prop where
  paths : batch.map about = (segment.map about).eraseDups
  last : ∀ c ∈ batch, ∃ before after, segment = before ++ c :: after ∧
    ∀ d ∈ after, d.about ≠ c.about

theorem place_cons (c d : Change) (rest : List Change) :
    Window.place c (d :: rest) =
      if d.about = c.about then c :: rest else d :: Window.place c rest := by
  rw [Window.place]
  exact if_congr decide_eq_true_iff rfl rfl

theorem map_about_place (c : Change) (batch : List Change) :
    (Window.place c batch).map about =
      if c.about ∈ batch.map about then batch.map about else batch.map about ++ [c.about] := by
  induction batch with
  | nil => rfl
  | cons d rest ih =>
    rw [place_cons]
    by_cases hsame : d.about = c.about
    · rw [if_pos hsame, List.map_cons, List.map_cons, hsame, if_pos (List.mem_cons_self ..)]
    · rw [if_neg hsame, List.map_cons, ih, List.map_cons]
      by_cases hmem : c.about ∈ rest.map about
      · rw [if_pos hmem, if_pos (List.mem_cons_of_mem _ hmem)]
      · rw [if_neg hmem, if_neg (by simp [Ne.symm hsame, hmem]), List.cons_append]

/-- What a window holds after one more change: the change, and what is about another path. -/
theorem mem_place {c d : Change} {batch : List Change} (hnodup : (batch.map about).Nodup)
    (h : d ∈ Window.place c batch) : d = c ∨ d ∈ batch ∧ d.about ≠ c.about := by
  induction batch with
  | nil => exact .inl (List.mem_singleton.mp h)
  | cons e rest ih =>
    rw [List.map_cons, List.nodup_cons] at hnodup
    rw [place_cons] at h
    by_cases hsame : e.about = c.about
    · rw [if_pos hsame] at h
      refine (List.mem_cons.mp h).imp_right fun hd => ⟨List.mem_cons_of_mem _ hd, ?_⟩
      intro hd'
      exact hnodup.1 (hsame ▸ hd' ▸ List.mem_map_of_mem hd)
    · rw [if_neg hsame] at h
      rcases List.mem_cons.mp h with rfl | h
      · exact .inr ⟨List.mem_cons_self .., hsame⟩
      · exact (ih hnodup.2 h).imp_right fun hd => ⟨List.mem_cons_of_mem _ hd.1, hd.2⟩

namespace IsBatchOf

variable {segment batch : List Change}

theorem nil : IsBatchOf [] [] :=
  ⟨rfl, by intro c hc; cases hc⟩

theorem eq_nil_iff (h : IsBatchOf segment batch) : segment = [] ↔ batch = [] := by
  have hpaths := h.paths
  constructor
  · rintro rfl
    exact List.map_eq_nil_iff.mp hpaths
  · rintro rfl
    cases segment with
    | nil => rfl
    | cons c rest =>
      rw [List.map_cons, List.eraseDups_cons] at hpaths
      cases hpaths

/-- **A window sums up what was put into it.** -/
theorem place (h : IsBatchOf segment batch) (c : Change) :
    IsBatchOf (segment ++ [c]) (Window.place c batch) := by
  refine ⟨?_, fun d hd => ?_⟩
  · rw [map_about_place, List.map_append, List.map_singleton, eraseDups_concat, h.paths]
    simp only [List.mem_eraseDups]
  · rcases mem_place (h.paths ▸ nodup_eraseDups _) hd with rfl | ⟨hd, hne⟩
    · exact ⟨segment, [], rfl, by intro e he; cases he⟩
    · obtain ⟨before, after, rfl, hlast⟩ := h.last d hd
      refine ⟨before, after ++ [c], by simp, fun e he => ?_⟩
      rcases List.mem_append.mp he with he | he
      · exact hlast e he
      · rw [List.mem_singleton.mp he]
        exact Ne.symm hne

end IsBatchOf
end Change

/-! ## 2. The machine -/

/-- How far a dispatcher is. -/
inductive RelayPhase where
  | running
  /-- It has been told to stop, and takes what is left. -/
  | draining
  | finished
  deriving DecidableEq, Repr

/-- A dispatcher with the channel through which the watcher sends its events. -/
structure Relay where
  dispatcher : Dispatcher
  /-- The events that were sent and not taken yet, the oldest first. -/
  channel : List WatchEvent
  /-- Whether the watcher is closed; then it sends nothing more. -/
  isClosed : Bool
  phase : RelayPhase
  deriving DecidableEq

/-- What can happen to a dispatcher and its channel. -/
inductive RelayAction where
  /-- The watcher sends an event. -/
  | send (e : WatchEvent)
  /-- The dispatcher takes the oldest event. -/
  | take (now : UInt64)
  /-- The time of the window is over. -/
  | expire (now : UInt64)
  /-- The watcher is closed. -/
  | close
  /-- The dispatcher hears that it is to stop. -/
  | stop
  /-- The dispatcher finds the channel empty after that. -/
  | finish

namespace Relay

/-- The dispatcher of a new session. -/
def new (options : SessionOptions) (awaitsReady : Bool) : Relay :=
  ⟨.new options awaitsReady, [], false, .running⟩

/-- The state after an action and what is handed out, if the action is possible. -/
def act? (r : Relay) : RelayAction → Option (Relay × List Delivery)
  | .send e => if r.isClosed then none else some ({ r with channel := r.channel ++ [e] }, [])
  | .take now =>
    match r.channel with
    | [] => none
    | e :: rest =>
      if r.phase = .finished then none
      else
        let handed := r.dispatcher.handle now e
        some ({ r with dispatcher := handed.2, channel := rest }, handed.1)
  | .expire now =>
    if r.phase = .running ∧ r.dispatcher.deadline.isSome then
      let handed := r.dispatcher.takeDue now
      some ({ r with dispatcher := handed.2 }, handed.1)
    else none
  | .close => if r.isClosed then none else some ({ r with isClosed := true }, [])
  | .stop =>
    -- a session closes its watcher before it stops its dispatcher
    if r.phase = .running ∧ r.isClosed then some ({ r with phase := .draining }, []) else none
  | .finish =>
    if r.phase = .draining ∧ r.channel = [] then
      let handed := r.dispatcher.finish
      some ({ r with dispatcher := handed.2, phase := .finished }, handed.1)
    else none

/-- The state after several actions and what is handed out, if each action is possible when it
comes. -/
def run? (r : Relay) : List RelayAction → Option (Relay × List Delivery)
  | [] => some (r, [])
  | a :: rest =>
    (r.act? a).bind fun first => (first.1.run? rest).map fun others =>
      (others.1, first.2 ++ others.2)

/-- What the actions do, each where it is possible. -/
inductive Step (r : Relay) : RelayAction → Relay → List Delivery → Prop
  | sends {e : WatchEvent} (hopen : r.isClosed = false) :
    r.Step (.send e) { r with channel := r.channel ++ [e] } []
  | takes {now : UInt64} {e : WatchEvent} {rest : List WatchEvent}
      (hchannel : r.channel = e :: rest) :
    r.Step (.take now) { r with dispatcher := (r.dispatcher.handle now e).2, channel := rest }
      (r.dispatcher.handle now e).1
  | expires {now : UInt64} :
    r.Step (.expire now) { r with dispatcher := (r.dispatcher.takeDue now).2 }
      (r.dispatcher.takeDue now).1
  | closes : r.Step .close { r with isClosed := true } []
  | stops (hclosed : r.isClosed = true) : r.Step .stop { r with phase := .draining } []
  | finishes (hphase : r.phase = .draining) (hchannel : r.channel = []) :
    r.Step .finish { r with dispatcher := r.dispatcher.finish.2, phase := .finished }
      r.dispatcher.finish.1

variable {r r' : Relay} {log : List Delivery} {a : RelayAction}

theorem step_of_act? (h : r.act? a = some (r', log)) : r.Step a r' log := by
  cases a with
  | send e =>
    rw [act?, Option.ite_none_left_eq_some] at h
    obtain ⟨rfl, rfl⟩ := Prod.mk.inj (Option.some.inj h.2)
    exact .sends (Bool.eq_false_iff.mpr h.1)
  | take now =>
    rw [act?] at h
    split at h
    · cases h
    · rename_i hchannel
      rw [Option.ite_none_left_eq_some] at h
      obtain ⟨rfl, rfl⟩ := Prod.mk.inj (Option.some.inj h.2)
      exact .takes hchannel
  | expire now =>
    rw [act?, Option.ite_none_right_eq_some] at h
    obtain ⟨rfl, rfl⟩ := Prod.mk.inj (Option.some.inj h.2)
    exact .expires
  | close =>
    rw [act?, Option.ite_none_left_eq_some] at h
    obtain ⟨rfl, rfl⟩ := Prod.mk.inj (Option.some.inj h.2)
    exact .closes
  | stop =>
    rw [act?, Option.ite_none_right_eq_some] at h
    obtain ⟨rfl, rfl⟩ := Prod.mk.inj (Option.some.inj h.2)
    exact .stops h.1.2
  | finish =>
    rw [act?, Option.ite_none_right_eq_some] at h
    obtain ⟨rfl, rfl⟩ := Prod.mk.inj (Option.some.inj h.2)
    exact .finishes h.1.1 h.1.2

theorem run?_cons_eq_some_iff {rest : List RelayAction} :
    r.run? (a :: rest) = some (r', log) ↔
      ∃ mid first others, r.act? a = some (mid, first) ∧ mid.run? rest = some (r', others) ∧
        log = first ++ others := by
  rw [run?, Option.bind_eq_some_iff]
  constructor
  · rintro ⟨⟨mid, first⟩, hact, hrest⟩
    obtain ⟨⟨last, others⟩, hrun, hpair⟩ := Option.map_eq_some_iff.mp hrest
    obtain ⟨rfl, rfl⟩ := Prod.mk.inj hpair
    exact ⟨mid, first, others, hact, hrun, rfl⟩
  · rintro ⟨mid, first, others, hact, hrun, rfl⟩
    exact ⟨(mid, first), hact, Option.map_eq_some_iff.mpr ⟨(r', others), hrun, rfl⟩⟩

theorem run?_append {as bs : List RelayAction} {mid : Relay} {others : List Delivery}
    (has : r.run? as = some (mid, log)) (hbs : mid.run? bs = some (r', others)) :
    r.run? (as ++ bs) = some (r', log ++ others) := by
  induction as generalizing r log with
  | nil =>
    obtain ⟨rfl, rfl⟩ := Prod.mk.inj (Option.some.inj has)
    exact hbs
  | cons a as ih =>
    obtain ⟨next, first, rest, hact, hrun, rfl⟩ := run?_cons_eq_some_iff.mp has
    rw [List.append_assoc]
    exact run?_cons_eq_some_iff.mpr ⟨next, first, rest ++ others, hact, ih hrun, rfl⟩

/-- A dispatcher at work that has taken all there is. -/
def idle (d : Dispatcher) : Relay :=
  ⟨d, [], false, .running⟩

theorem run?_handleAll (d : Dispatcher) (now : UInt64) (events : List WatchEvent) :
    ∃ as, (idle d).run? as =
      some (idle (d.handleAll now events).2, (d.handleAll now events).1) := by
  induction events generalizing d with
  | nil => exact ⟨[], rfl⟩
  | cons e rest ih =>
    obtain ⟨as, hrun⟩ := ih (d.handle now e).2
    have hfirst : (idle d).run? [.send e, .take now] =
        some (idle (d.handle now e).2, (d.handle now e).1) := by
      simp [run?, act?, idle]
    exact ⟨_, run?_append hfirst hrun⟩

theorem run?_takeDue (d : Dispatcher) (now : UInt64) :
    ∃ as, (idle d).run? as = some (idle (d.takeDue now).2, (d.takeDue now).1) := by
  cases hdeadline : d.deadline with
  | some deadline =>
    refine ⟨[.expire now], ?_⟩
    simp [run?, act?, idle, hdeadline]
  | none =>
    refine ⟨[], ?_⟩
    rcases d with ⟨_ | w, awaitsReady⟩
    · rfl
    · have hclosed : w.takeDue now = (none, w) := by
        rw [Window.takeDue, show w.deadline = none from hdeadline]
      simp [run?, Dispatcher.takeDue, hclosed]

/-- **What a session hands out while time passes is handed out by a run of the machine.** -/
theorem run?_pass (s : Session) (disk : FileTree) (time : Timestamp) (horizon : UInt64) :
    ∃ as, (idle s.dispatcher).run? as =
      some (idle (s.pass disk time horizon).2.dispatcher, (s.pass disk time horizon).1) := by
  unfold Session.pass
  generalize 2 * s.watcher.waiting + 2 = fuel
  induction fuel generalizing s with
  | zero => exact ⟨[], rfl⟩
  | succ fuel ih =>
    rw [Session.passFor]
    split
    · exact ⟨[], rfl⟩
    · rename_i instant _
      split
      · exact ⟨[], rfl⟩
      · obtain ⟨as, has⟩ := run?_takeDue s.dispatcher instant
        obtain ⟨bs, hbs⟩ := run?_handleAll (s.dispatcher.takeDue instant).2 instant
          ((s.watcher.settleDue disk time instant).1.map .change)
        obtain ⟨cs, hcs⟩ := ih (s.tick disk time instant).2
        exact ⟨_, run?_append (run?_append has hbs) hcs⟩

/-- **A session that ends closes its watcher, stops its dispatcher and hands out what is left.** -/
theorem run?_close (s : Session) :
    (idle s.dispatcher).run? [.close, .stop, .finish] =
      some (⟨s.close.2.dispatcher, [], true, .finished⟩, s.close.1) := by
  simp [run?, act?, idle, Session.close]

/-! ## 3. Accounts -/

/-- The changes among events. -/
def changesOf (events : List WatchEvent) : List Change :=
  events.filterMap fun
    | .change c => some c
    | _ => none

/-- The events that are sent. -/
def sentBy (as : List RelayAction) : List WatchEvent :=
  as.filterMap fun
    | .send e => some e
    | _ => none

/-- The batches among what is handed out. -/
def batchesOf (log : List Delivery) : List (List Change) :=
  log.filterMap fun
    | .batch cs => some cs
    | .ready _ => none

/-- How often it is said that watching has begun. -/
def readyCount (log : List Delivery) : Nat :=
  log.countP fun
    | .ready _ => true
    | .batch _ => false

/-- What is handed out for a piece of the changes: with batching a batch that sums them up, and
without it the one change that there is. -/
def Delivers (batching : Bool) (segment batch : List Change) : Prop :=
  segment ≠ [] ∧
    if batching then Change.IsBatchOf segment batch else ∃ c, segment = [c] ∧ batch = [c]

/-- What the window of a dispatcher holds of the changes: a batch that sums them up, or nothing
if there is no window. -/
def Holds (batching : Bool) (d : Dispatcher) (held : List Change) : Prop :=
  match d.window with
  | some w => batching = true ∧ Change.IsBatchOf held w.batch
  | none => batching = false ∧ held = []

/-- **The accounts of a dispatcher**: the changes that were sent are, in order, those that were
handed out, piece by piece, those that the window holds and those in the channel. -/
structure Accounts (batching : Bool) (sent : List WatchEvent) (log : List Delivery) (r : Relay)
    (cuts : List (List Change × List Change)) (held : List Change) : Prop where
  balance : changesOf sent = (cuts.map Prod.fst).flatten ++ held ++ changesOf r.channel
  handed : cuts.map Prod.snd = batchesOf log
  delivers : ∀ x ∈ cuts, Delivers batching x.1 x.2
  holds : Holds batching r.dispatcher held
  closed : r.phase ≠ .running → r.isClosed = true
  finished : r.phase = .finished → r.channel = [] ∧ held = []

variable {batching : Bool} {sent : List WatchEvent} {past : List Delivery}
  {cuts : List (List Change × List Change)} {held : List Change}

@[simp] theorem changesOf_append (es fs : List WatchEvent) :
    changesOf (es ++ fs) = changesOf es ++ changesOf fs :=
  List.filterMap_append

@[simp] theorem batchesOf_append (log log' : List Delivery) :
    batchesOf (log ++ log') = batchesOf log ++ batchesOf log' :=
  List.filterMap_append

/-- What handling an event does: a change is put into the window, or handed out alone if there is
no window; nothing else touches the window, or hands out changes. -/
theorem handle_cases (h : Holds batching r.dispatcher held) (now : UInt64) (e : WatchEvent) :
    (∃ c, e = .change c ∧ batching = false ∧ batchesOf (r.dispatcher.handle now e).1 = [[c]] ∧
        Holds batching (r.dispatcher.handle now e).2 []) ∨
      (∃ c, e = .change c ∧ batchesOf (r.dispatcher.handle now e).1 = [] ∧
        Holds batching (r.dispatcher.handle now e).2 (held ++ [c])) ∨
      changesOf [e] = [] ∧ batchesOf (r.dispatcher.handle now e).1 = [] ∧
        Holds batching (r.dispatcher.handle now e).2 held := by
  cases e with
  | ready files =>
    refine .inr (.inr ⟨rfl, ?_⟩)
    rw [Dispatcher.handle]
    split
    · exact ⟨rfl, h⟩
    · exact ⟨rfl, h⟩
  | error message paths => exact .inr (.inr ⟨rfl, rfl, h⟩)
  | change c =>
    unfold Holds at h
    rw [Dispatcher.handle]
    cases hwindow : r.dispatcher.window with
    | none =>
      rw [hwindow] at h
      refine .inl ⟨c, rfl, h.1, rfl, ?_⟩
      rw [Holds, hwindow]
      exact ⟨h.1, rfl⟩
    | some w =>
      rw [hwindow] at h
      exact .inr (.inl ⟨c, rfl, rfl, h.1, h.2.place c⟩)

/-- What emptying the window does: what it held is handed out as one batch, unless it held
nothing. -/
theorem finish_cases (h : Holds batching r.dispatcher held) :
    Holds batching r.dispatcher.finish.2 [] ∧
      (batchesOf r.dispatcher.finish.1 = [] ∧ held = [] ∨
        ∃ batch, batchesOf r.dispatcher.finish.1 = [batch] ∧ Delivers batching held batch) := by
  unfold Holds at h
  cases hwindow : r.dispatcher.window with
  | none =>
    rw [hwindow] at h
    have hfinish : r.dispatcher.finish = ([], r.dispatcher) := by
      rw [Dispatcher.finish, hwindow]
    rw [hfinish, Holds, hwindow]
    exact ⟨⟨h.1, rfl⟩, .inl ⟨rfl, h.2⟩⟩
  | some w =>
    rw [hwindow] at h
    have hfinish : r.dispatcher.finish =
        (w.flush.1.toList.map .batch, { r.dispatcher with window := some w.flush.2 }) := by
      rw [Dispatcher.finish, hwindow]
    rw [hfinish]
    refine ⟨⟨h.1, .nil⟩, ?_⟩
    by_cases hempty : w.batch = []
    · refine .inl ⟨?_, h.2.eq_nil_iff.mpr hempty⟩
      rw [Window.flush, hempty]
      rfl
    · refine .inr ⟨w.batch, ?_, fun hheld => hempty (h.2.eq_nil_iff.mp hheld), ?_⟩
      · rw [Window.flush, if_neg (by simpa using hempty)]
        rfl
      · rw [h.1]
        exact h.2

/-- A window whose time is over is emptied, and any other is left alone. -/
theorem takeDue_cases (d : Dispatcher) (now : UInt64) :
    d.takeDue now = d.finish ∨ d.takeDue now = ([], d) := by
  unfold Dispatcher.takeDue Dispatcher.finish
  cases hwindow : d.window with
  | none => exact .inl rfl
  | some w =>
    have hsame : ({ d with window := some w } : Dispatcher) = d := by
      rw [← hwindow]
    dsimp only
    rcases hdeadline : w.deadline with _ | deadline
    · rw [Window.takeDue, hdeadline]
      exact .inr (by rw [← hsame]; rfl)
    · by_cases hdue : deadline ≤ now
      · rw [Window.takeDue, hdeadline]
        simp only [hdue, if_true]
        exact .inl trivial
      · rw [Window.takeDue, hdeadline]
        simp only [hdue, if_false]
        exact .inr (by rw [← hsame]; rfl)

namespace Accounts

/-- What the window held has been handed out. -/
theorem afterFinish (h : Accounts batching sent past r cuts held) (phase : RelayPhase)
    (hphase : phase ≠ .running → r.isClosed = true)
    (hfinished : phase = .finished → r.channel = []) :
    ∃ cuts', Accounts batching sent (past ++ r.dispatcher.finish.1)
      { r with dispatcher := r.dispatcher.finish.2, phase } cuts' [] := by
  obtain ⟨hholds, ⟨hnone, rfl⟩ | ⟨batch, hbatch, hdelivers⟩⟩ := finish_cases h.holds
  · refine ⟨cuts, h.balance, ?_, h.delivers, hholds, hphase, fun hp => ⟨hfinished hp, rfl⟩⟩
    rw [batchesOf_append, hnone, List.append_nil]
    exact h.handed
  · refine ⟨cuts ++ [(held, batch)], ?_, ?_, fun x hx => ?_, hholds, hphase,
      fun hp => ⟨hfinished hp, rfl⟩⟩
    · rw [h.balance]
      simp
    · rw [batchesOf_append, hbatch, List.map_append, h.handed]
      rfl
    · rcases List.mem_append.mp hx with hx | hx
      · exact h.delivers x hx
      · rw [List.mem_singleton.mp hx]
        exact hdelivers

/-- The oldest event has been taken. -/
theorem afterTake (h : Accounts batching sent past r cuts held) {e : WatchEvent}
    {rest : List WatchEvent} (hchannel : r.channel = e :: rest) (now : UInt64) :
    ∃ cuts' held', Accounts batching sent (past ++ (r.dispatcher.handle now e).1)
      { r with dispatcher := (r.dispatcher.handle now e).2, channel := rest } cuts' held' := by
  have hfinished : r.phase ≠ .finished := by
    intro hphase
    rw [(h.finished hphase).1] at hchannel
    cases hchannel
  have hbalance := h.balance
  rw [hchannel, show e :: rest = [e] ++ rest from rfl, changesOf_append] at hbalance
  rcases handle_cases h.holds now e with ⟨c, rfl, hsingle, hbatch, hholds⟩ |
    ⟨c, rfl, hbatch, hholds⟩ | ⟨hnone, hbatch, hholds⟩
  · -- without a window nothing was held before
    have hheld : held = [] := by
      have hholds := h.holds
      unfold Holds at hholds
      split at hholds
      · rw [hsingle] at hholds
        cases hholds.1
      · exact hholds.2
    refine ⟨cuts ++ [([c], [c])], [], ?_, ?_, fun x hx => ?_, hholds, h.closed,
      fun hphase => absurd hphase hfinished⟩
    · rw [hbalance, hheld]
      simp [changesOf]
    · rw [batchesOf_append, hbatch, List.map_append, h.handed]
      rfl
    · rcases List.mem_append.mp hx with hx | hx
      · exact h.delivers x hx
      · rw [List.mem_singleton.mp hx, Delivers, hsingle]
        exact ⟨List.cons_ne_nil _ _, c, rfl, rfl⟩
  · refine ⟨cuts, held ++ [c], ?_, ?_, h.delivers, hholds, h.closed,
      fun hphase => absurd hphase hfinished⟩
    · rw [hbalance]
      simp [changesOf]
    · rw [batchesOf_append, hbatch, List.append_nil]
      exact h.handed
  · refine ⟨cuts, held, ?_, ?_, h.delivers, hholds, h.closed, fun hphase => absurd hphase hfinished⟩
    · rw [hbalance, hnone, List.nil_append]
    · rw [batchesOf_append, hbatch, List.append_nil]
      exact h.handed

/-- **Every step keeps the accounts.** -/
theorem step (h : Accounts batching sent past r cuts held) (hstep : r.Step a r' log) :
    ∃ cuts' held', Accounts batching (sent ++ sentBy [a]) (past ++ log) r' cuts' held' := by
  have hsent : ∀ {a}, sentBy [a] = [] → sent ++ sentBy [a] = sent := fun ha => by
    rw [ha, List.append_nil]
  cases hstep with
  | @sends e hopen =>
    refine ⟨cuts, held, ?_, by rw [List.append_nil]; exact h.handed, h.delivers, h.holds, h.closed,
      fun hphase => ?_⟩
    · show changesOf (sent ++ [e]) = _
      rw [changesOf_append, changesOf_append, h.balance, List.append_assoc]
    · -- nothing is sent to a dispatcher that has come to its end
      have hclosed := h.closed (by rw [hphase]; exact RelayPhase.noConfusion)
      rw [hopen] at hclosed
      cases hclosed
  | takes hchannel =>
    rw [hsent rfl]
    exact h.afterTake hchannel _
  | @expires now =>
    rw [hsent rfl]
    rcases takeDue_cases r.dispatcher now with hdue | hdue
    · rw [hdue]
      obtain ⟨cuts', h'⟩ := h.afterFinish r.phase h.closed fun hp => (h.finished hp).1
      exact ⟨cuts', [], h'⟩
    · rw [hdue, List.append_nil]
      exact ⟨cuts, held, h⟩
  | closes =>
    rw [hsent rfl, List.append_nil]
    exact ⟨cuts, held, h.balance, h.handed, h.delivers, h.holds, fun _ => rfl, h.finished⟩
  | stops hclosed =>
    rw [hsent rfl, List.append_nil]
    exact ⟨cuts, held, h.balance, h.handed, h.delivers, h.holds, fun _ => hclosed,
      fun hphase => RelayPhase.noConfusion hphase⟩
  | finishes hphase hchannel =>
    rw [hsent rfl]
    have hclosed := h.closed (by rw [hphase]; exact RelayPhase.noConfusion)
    obtain ⟨cuts', h'⟩ := h.afterFinish .finished (fun _ => hclosed) fun _ => hchannel
    exact ⟨cuts', [], h'⟩

theorem run? {as : List RelayAction} (h : Accounts batching sent past r cuts held)
    (hrun : r.run? as = some (r', log)) :
    ∃ cuts' held', Accounts batching (sent ++ sentBy as) (past ++ log) r' cuts' held' := by
  induction as generalizing r sent past log cuts held with
  | nil =>
    obtain ⟨rfl, rfl⟩ := Prod.mk.inj (Option.some.inj hrun)
    exact ⟨cuts, held, by rwa [sentBy, List.filterMap_nil, List.append_nil, List.append_nil]⟩
  | cons a as ih =>
    obtain ⟨mid, first, others, hact, hrest, rfl⟩ := run?_cons_eq_some_iff.mp hrun
    obtain ⟨cuts', held', h'⟩ := h.step (step_of_act? hact)
    have hsplit : sentBy (a :: as) = sentBy [a] ++ sentBy as := List.filterMap_append (l := [a])
    rw [hsplit, ← List.append_assoc, ← List.append_assoc]
    exact ih h' hrest

theorem new (options : SessionOptions) (awaitsReady : Bool) :
    Accounts options.batching [] [] (Relay.new options awaitsReady) [] [] := by
  refine ⟨rfl, rfl, ?_, ?_, fun hphase => absurd rfl hphase, fun _ => ⟨rfl, rfl⟩⟩
  · intro x hx
    cases hx
  · unfold Relay.new Dispatcher.new Holds
    cases options.batching with
    | false => exact ⟨rfl, rfl⟩
    | true => exact ⟨rfl, .nil⟩

end Accounts

/-! ## 4. Beginning and end -/

theorem finish_keeps_ready (d : Dispatcher) :
    readyCount d.finish.1 = 0 ∧ d.finish.2.awaitsReady = d.awaitsReady := by
  unfold Dispatcher.finish
  split
  · exact ⟨rfl, rfl⟩
  · unfold Window.flush
    dsimp only
    split <;> exact ⟨rfl, rfl⟩

/-- It is said at most once that watching has begun, and only if somebody waits for it. -/
theorem Step.readyCount (hstep : r.Step a r' log) :
    readyCount log + r'.dispatcher.awaitsReady.toNat = r.dispatcher.awaitsReady.toNat := by
  obtain ⟨hcount, hawaits⟩ := finish_keeps_ready r.dispatcher
  cases hstep with
  | sends _ => exact Nat.zero_add _
  | takes _ =>
    dsimp only
    unfold Dispatcher.handle
    split
    · split
      · rename_i hawaits
        rw [hawaits]
        rfl
      · exact Nat.zero_add _
    · split <;> exact Nat.zero_add _
    · exact Nat.zero_add _
  | @expires now =>
    rcases takeDue_cases r.dispatcher now with hdue | hdue
    · simp only [hdue, hcount, hawaits, Nat.zero_add]
    · simp only [hdue]
      exact Nat.zero_add _
  | closes => exact Nat.zero_add _
  | stops _ => exact Nat.zero_add _
  | finishes _ _ => simp only [hcount, hawaits, Nat.zero_add]

theorem readyCount_run? {as : List RelayAction} (hrun : r.run? as = some (r', log)) :
    readyCount log + r'.dispatcher.awaitsReady.toNat = r.dispatcher.awaitsReady.toNat := by
  induction as generalizing r log with
  | nil =>
    obtain ⟨rfl, rfl⟩ := Prod.mk.inj (Option.some.inj hrun)
    exact Nat.zero_add _
  | cons a as ih =>
    obtain ⟨mid, first, others, hact, hrest, rfl⟩ := run?_cons_eq_some_iff.mp hrun
    have hfirst := (step_of_act? hact).readyCount
    have hothers := ih hrest
    rw [readyCount, List.countP_append]
    unfold readyCount at hfirst hothers
    omega

/-- A dispatcher that was told to stop comes to its end by taking what is left. -/
theorem exists_run_of_draining (hphase : r.phase = .draining) :
    ∃ as r' log, r.run? as = some (r', log) ∧ r'.phase = .finished ∧ sentBy as = [] := by
  rcases hr : r with ⟨d, channel, isClosed, phase⟩
  rw [hr] at hphase
  obtain rfl : phase = .draining := hphase
  clear hr
  induction channel generalizing d with
  | nil => exact ⟨[.finish], ⟨d.finish.2, [], isClosed, .finished⟩, d.finish.1 ++ [], rfl, rfl, rfl⟩
  | cons e rest ih =>
    obtain ⟨as, r', log, hrun, hfinished, hsent⟩ := ih (d.handle 0 e).2
    refine ⟨.take 0 :: as, r', (d.handle 0 e).1 ++ log, ?_, hfinished, hsent⟩
    exact run?_cons_eq_some_iff.mpr ⟨_, _, _, rfl, hrun, rfl⟩

/-- **A session can be ended at any time.** -/
theorem exists_run_to_finished (r : Relay) :
    ∃ as r' log, r.run? as = some (r', log) ∧ r'.phase = .finished ∧ sentBy as = [] := by
  have hstop : ∀ r : Relay, r.phase = .running → r.isClosed = true →
      ∃ as r' log, r.run? as = some (r', log) ∧ r'.phase = .finished ∧ sentBy as = [] := by
    intro r hphase hclosed
    obtain ⟨as, r', log, hrun, hfinished, hsent⟩ :=
      exists_run_of_draining (r := { r with phase := .draining }) rfl
    refine ⟨.stop :: as, r', [] ++ log, ?_, hfinished, hsent⟩
    exact run?_cons_eq_some_iff.mpr ⟨_, [], log, by rw [act?, if_pos ⟨hphase, hclosed⟩], hrun, rfl⟩
  cases hphase : r.phase with
  | finished => exact ⟨[], r, [], rfl, hphase, rfl⟩
  | draining => exact exists_run_of_draining hphase
  | running =>
    cases hclosed : r.isClosed with
    | true => exact hstop r hphase hclosed
    | false =>
      obtain ⟨as, r', log, hrun, hfinished, hsent⟩ := hstop { r with isClosed := true } hphase rfl
      refine ⟨.close :: as, r', [] ++ log, ?_, hfinished, hsent⟩
      exact run?_cons_eq_some_iff.mpr
        ⟨_, [], log, by rw [act?, hclosed, if_neg Bool.false_ne_true], hrun, rfl⟩

/-- **Every change is handed out once.**  In whatever order events are sent and taken, windows
close and the session ends: when the dispatcher is done, the changes that were sent before the
watcher was closed can be cut into pieces that are not empty, one for each batch that was handed
out and in the same order.  With batching each batch sums up its piece; without it each piece is
one change, handed out as it is.  It is said at most once that watching has begun.  And at any
time the session can be ended. -/
theorem every_change_is_handed_out_once (options : SessionOptions) (awaitsReady : Bool)
    {as : List RelayAction} {r : Relay} {log : List Delivery}
    (hrun : (new options awaitsReady).run? as = some (r, log)) :
    (r.phase = .finished → ∃ cuts : List (List Change × List Change),
      changesOf (sentBy as) = (cuts.map Prod.fst).flatten ∧ batchesOf log = cuts.map Prod.snd ∧
      ∀ x ∈ cuts, Delivers options.batching x.1 x.2) ∧
    readyCount log ≤ 1 ∧
    ∃ rest r' log', r.run? rest = some (r', log') ∧ r'.phase = .finished ∧ sentBy rest = [] := by
  obtain ⟨cuts, held, haccounts⟩ := (Accounts.new options awaitsReady).run? hrun
  refine ⟨fun hfinished => ⟨cuts, ?_, haccounts.handed.symm, haccounts.delivers⟩, ?_,
    exists_run_to_finished r⟩
  · obtain ⟨hchannel, hheld⟩ := haccounts.finished hfinished
    have hbalance := haccounts.balance
    rw [hchannel, hheld, List.append_nil] at hbalance
    exact hbalance.trans (List.append_nil _)
  · have hready := readyCount_run? hrun
    have hone := (new options awaitsReady).dispatcher.awaitsReady.toNat_le
    omega

/-- A change of a path with a name of one letter. -/
def sampleChange (letter : UInt8) (kind : ChangeKind) : Change :=
  ⟨⟨[letter]⟩, kind, ⟨0, 0⟩⟩

def batchingOptions : SessionOptions :=
  ⟨.standard, ⟨100⟩, true⟩

/-- A window closes with two changes of one path and one of another in it, and the session ends
with a change still in the channel. -/
def sampleActions : List RelayAction :=
  [.send (.ready 1), .send (.change (sampleChange 97 .change)), .take 0, .take 5,
    .send (.change (sampleChange 98 .add)), .send (.change (sampleChange 97 .remove)),
    .take 10, .take 20, .send (.ready 2), .expire 200, .send (.change (sampleChange 98 .change)),
    .close, .stop, .take 300, .take 300, .finish]

def sampleLog : List Delivery :=
  [.ready 1, .batch [sampleChange 97 .remove, sampleChange 98 .add],
    .batch [sampleChange 98 .change]]

def sampleEnd : Relay :=
  ⟨⟨some ⟨100, [], none⟩, false⟩, [], true, .finished⟩

theorem every_change_is_handed_out_once_batching :
    (new batchingOptions true).run? sampleActions = some (sampleEnd, sampleLog) ∧
    ∃ cuts : List (List Change × List Change),
      changesOf (sentBy sampleActions) = (cuts.map Prod.fst).flatten ∧
      batchesOf sampleLog = cuts.map Prod.snd ∧ ∀ x ∈ cuts, Delivers true x.1 x.2 := by
  have hrun : (new batchingOptions true).run? sampleActions = some (sampleEnd, sampleLog) := by
    decide
  exact ⟨hrun, (every_change_is_handed_out_once batchingOptions true hrun).1 rfl⟩

end Relay
end AnalysisRunner
