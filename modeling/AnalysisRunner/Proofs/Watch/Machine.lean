import AnalysisRunner.Watch.Watcher

/-!
# A watcher as a machine

What is done to a watcher, what its backend tells it and what happens on the disk are the
actions of a machine, and they may come in any order that is possible.  When a quiet period
is over, the paths that were quiet are taken out first (`drain`) and then looked at one
after the other (`settle`).  In between files may be added and dropped and the disk may
change, but no notification is taken, and the watcher is not closed before the last look.

`act?` performs one action, and answers `none` where it is not possible.  A call that the
watcher refuses is possible and changes nothing.  Along with the state an action gives its
notices: the events that the watcher reports, and that a call has begun or ceased to track
a file, which is not reported.

A look is one step here: it reads the disk, changes the table and reports the events.  In the
program the disk is read first, the table is held only while it is changed, and the events are
sent after it has been given back.  So a call may add or drop a file when the table has changed
already and its event has not been received yet.  Only the driver sends changes, one look after
the other, so they are received in the order in which they are noticed here; where the notices of
calls stand among them is their order at the table, not that in which a reader of the events sees
them.

On a disk that stays as it is, a drain and the looks after it are one `settleDue`
(`run?_settleDue`).
-/

namespace AnalysisRunner

/-! ## 1. What the calls do -/

/-- Whether an event is a change. -/
def WatchEvent.isChange : WatchEvent → Bool
  | .change _ => true
  | _ => false

/-- What subscribing leaves alone: the table, and what is pending; and it reports no
change. -/
structure Reaction.Keeps (r r' : Reaction) : Prop where
  table : r'.watcher.table = r.watcher.table
  pending : r'.watcher.pending = r.watcher.pending
  events : (∀ e ∈ r.events, e.isChange = false) → ∀ e ∈ r'.events, e.isChange = false

theorem Reaction.Keeps.refl (r : Reaction) : r.Keeps r :=
  ⟨rfl, rfl, fun h => h⟩

theorem Reaction.Keeps.trans {r r' r'' : Reaction} (h : r.Keeps r')
    (h' : r'.Keeps r'') : r.Keeps r'' :=
  ⟨h'.table.trans h.table, h'.pending.trans h.pending, fun hr => h'.events (h.events hr)⟩

namespace Watcher

theorem keeps_subscribe (backend : Backend) (recursive : Bool) (r : Reaction) (dir : Path) :
    r.Keeps (subscribe backend recursive r dir) := by
  unfold subscribe
  split
  · exact ⟨rfl, rfl, fun h => h⟩
  · refine ⟨rfl, rfl, fun h e he => ?_⟩
    rcases List.mem_append.mp he with he | he
    · exact h e he
    · rw [List.mem_singleton.mp he]
      rfl

theorem keeps_subscribeParent (backend : Backend) (isCovered : Path → Bool) (r : Reaction)
    (file : Path) : r.Keeps (subscribeParent backend isCovered r file) := by
  unfold subscribeParent
  split
  · exact .refl r
  · split
    · exact .refl r
    · exact keeps_subscribe backend false r _

theorem keeps_foldl {α : Type} {f : Reaction → α → Reaction} (h : ∀ r a, Reaction.Keeps r (f r a))
    (as : List α) (r : Reaction) : r.Keeps (as.foldl f r) := by
  induction as generalizing r with
  | nil => exact .refl r
  | cons a as ih => exact (h r a).trans (ih _)

/-- The directories among the paths to watch. -/
def rootsAmong (disk : FileTree) (paths : List Path) : List Path :=
  (paths.map (classify disk)).flatMap Prod.fst

/-- The files among the paths to watch, as they are seen. -/
def filesAmong (disk : FileTree) (paths : List Path) : List WatchEntry :=
  (paths.map (classify disk)).flatMap Prod.snd

/-- The files that are found in directories. -/
def scanAll (disk : FileTree) (filter : Filter) (roots : List Path) : List WatchEntry :=
  roots.flatMap fun root => disk.scan filter root root

variable {w : Watcher} {backend : Backend} {disk : FileTree} {r : Reaction}

/-- **What beginning to watch does**, where it is not refused. -/
theorem watch_eq_ok {paths : List Path} (h : w.watch backend disk paths = .ok r) :
    w.pending = none ∧
      r.watcher.table = opened w.table (rootsAmong disk paths)
        (scanAll disk w.table.filter (rootsAmong disk paths)) (filesAmong disk paths) ∧
      r.watcher.pending = some (.new w.options.debounce) ∧
      (∀ e ∈ r.events, e.isChange = false) ∧ .ready r.watcher.table.tracked.size ∈ r.events := by
  unfold watch at h
  split at h
  · cases h
  · rename_i hidle
    cases hcall : w.bringUp backend with
    | error fault =>
      rw [hcall] at h
      cases h
    | ok call =>
      rw [hcall] at h
      obtain rfl := Except.ok.inj h
      have hkeeps := (keeps_foldl (keeps_subscribe backend true) (rootsAmong disk paths)
        ⟨{ w with subscribed := .empty }, [], [call]⟩).trans
        (keeps_foldl (fun r e => keeps_subscribeParent backend
          (fun dir => (rootsAmong disk paths).any fun root => dir.startsWith root)
            r (WatchEntry.path e))
          (filesAmong disk paths) _)
      refine ⟨?_, rfl, rfl, ?_, List.mem_append_right _ (List.mem_singleton.mpr rfl)⟩
      · simpa [isWatching] using hidle
      · intro e he
        rcases List.mem_append.mp he with he | he
        · exact hkeeps.events (fun e he => nomatch he) e he
        · rw [List.mem_singleton.mp he]
          rfl

/-- The table after a file was added, as it is seen. -/
def withFile (t : WatchTable) (path : Path) (sight : Sight) : WatchTable :=
  let t := { t with
    excluded := t.excluded.remove path
    explicit := PathSet.add t.explicit path }
  match sight with
  | .file signature => t.track path (some signature)
  | _ => t

/-- **What adding a file does**, where it is not refused. -/
theorem addFile_eq_ok {p : Path} (h : w.addFile backend disk p = .ok r) :
    w.isWatching = true ∧
      r.watcher.table = withFile w.table (resolve disk p) (disk.look (resolve disk p)) ∧
      r.watcher.pending = w.pending ∧ ∀ e ∈ r.events, e.isChange = false := by
  unfold addFile at h
  split at h
  · cases h
  · rename_i hwatching
    obtain rfl := Except.ok.inj h
    have hkeeps := keeps_subscribeParent backend
      (fun _ => ((withFile w.table (resolve disk p) (disk.look (resolve disk p))).rootFor
        (resolve disk p)).isSome)
      ⟨{ w with table := withFile w.table (resolve disk p) (disk.look (resolve disk p)) }, [], []⟩
      (resolve disk p)
    refine ⟨by simpa using hwatching, hkeeps.table, hkeeps.pending, ?_⟩
    exact hkeeps.events fun e he => nomatch he

/-- The table after a file was dropped. -/
def withoutFile (t : WatchTable) (path : Path) : WatchTable :=
  { t with
    explicit := t.explicit.remove path
    excluded := PathSet.add t.excluded path
    tracked := t.tracked.remove path }

/-- **What dropping a file does**, where it is not refused. -/
theorem removeFile_eq_ok {p : Path} {was : Bool} {w' : Watcher}
    (h : w.removeFile disk p = .ok (was, w')) :
    w.isWatching = true ∧ w' = { w with table := withoutFile w.table (resolve disk p) } := by
  unfold removeFile at h
  split at h
  · cases h
  · rename_i hwatching
    obtain ⟨-, rfl⟩ := Prod.mk.inj (Except.ok.inj h)
    exact ⟨by simpa using hwatching, rfl⟩

/-- **What a notification does**: nothing, if the watcher is idle or no change is suggested, and
otherwise the relevant paths begin to wait. -/
theorem notify_cases (w : Watcher) (kind : NotificationKind) (paths : List Path) (now : UInt64) :
    (w.notify kind paths now = w ∧ (w.pending = none ∨ kind.change? = none)) ∨
      ∃ d k, w.pending = some d ∧ kind.change? = some k ∧
        w.notify kind paths now = { w with
          pending :=
            some ((paths.filter w.table.isRelevant).foldl (fun d p => d.record p k now) d) } := by
  unfold notify
  cases hpending : w.pending with
  | none => exact .inl ⟨rfl, .inl rfl⟩
  | some d =>
    cases hkind : kind.change? with
    | none => exact .inl ⟨rfl, .inr rfl⟩
    | some k => exact .inr ⟨d, k, rfl, rfl, rfl⟩

end Watcher

/-! ## 2. The machine -/

/-- What can happen to a watcher. -/
inductive WatchAction where
  | watch (backend : Backend) (paths : List Path)
  | close
  | addFile (backend : Backend) (path : Path)
  | removeFile (path : Path)
  | notify (kind : NotificationKind) (paths : List Path) (now : UInt64)
  /-- The backend reports a fault. -/
  | complain (fault : BackendFault)
  /-- The paths that have been quiet for long enough are taken out. -/
  | drain (now : UInt64)
  /-- The next of them is looked at. -/
  | settle (time : Timestamp)
  /-- The disk changes. -/
  | edit (disk : FileTree)

/-- Whether an action may change nothing: calls can be refused, and faults are only
reported. -/
def WatchAction.mayStay : WatchAction → Bool
  | .watch _ _ => true
  | .addFile _ _ => true
  | .removeFile _ => true
  | .complain _ => true
  | _ => false

/-- What can be noticed of an action. -/
inductive Notice where
  | event (e : WatchEvent)
  /-- A call has begun to track a file. -/
  | added (path : Path)
  /-- A call has ceased to track a file. -/
  | dropped (path : Path)

/-- Whether a notice is about no file. -/
def Notice.isSilent : Notice → Bool
  | .event e => !e.isChange
  | _ => false

/-- A watcher with the disk that it watches. -/
structure WatchState where
  watcher : Watcher
  disk : FileTree
  /-- The paths that were taken out and not looked at yet. -/
  due : List Path

namespace WatchState

/-- What is noticed of a call that adds a file: it is tracked only if it is seen. -/
def addedNotices (path : Path) : Sight → List Notice
  | .file _ => [.added path]
  | _ => []

/-- The state after an action and what is noticed of it, if the action is possible. -/
def act? (s : WatchState) : WatchAction → Option (WatchState × List Notice)
  | .watch backend paths =>
    match s.watcher.watch backend s.disk paths with
    | .error _ => some (s, [])
    | .ok r => some ({ s with watcher := r.watcher }, r.events.map .event)
  | .close => if s.due.isEmpty then some ({ s with watcher := s.watcher.close }, []) else none
  | .addFile backend path =>
    match s.watcher.addFile backend s.disk path with
    | .error _ => some (s, [])
    | .ok r =>
      let file := Watcher.resolve s.disk path
      some ({ s with watcher := r.watcher },
        addedNotices file (s.disk.look file) ++ r.events.map .event)
  | .removeFile path =>
    match s.watcher.removeFile s.disk path with
    | .error _ => some (s, [])
    | .ok (_, w) => some ({ s with watcher := w }, [.dropped (Watcher.resolve s.disk path)])
  | .notify kind paths now =>
    if s.due.isEmpty then some ({ s with watcher := s.watcher.notify kind paths now }, []) else none
  | .complain fault =>
    if s.due.isEmpty && s.watcher.isWatching then some (s, [.event (.error fault.text fault.paths)])
    else none
  | .drain now =>
    match s.due, s.watcher.pending with
    | [], some d =>
      some ({ s with
        watcher := { s.watcher with pending := some (d.drain now).2 }
        due := (d.drain now).1.map Prod.fst }, [])
    | _, _ => none
  | .settle time =>
    -- the table and the events at once, though the events are sent once the table is free again
    match s.due with
    | [] => none
    | p :: rest =>
      let seen := s.watcher.table.settle s.disk time p
      some ({ s with watcher := { s.watcher with table := seen.2 }, due := rest },
        seen.1.map fun c => .event (.change c))
  | .edit disk => some ({ s with disk }, [])

/-- The state after several actions and what is noticed of them, if each is possible when it
comes. -/
def run? (s : WatchState) : List WatchAction → Option (WatchState × List Notice)
  | [] => some (s, [])
  | a :: rest =>
    (s.act? a).bind fun first => (first.1.run? rest).map fun others =>
      (others.1, first.2 ++ others.2)

variable {s s' : WatchState} {log : List Notice}

/-! ## 3. What a step can do -/

/-- The steps of the machine: what an action does to a state, and what is noticed of it. -/
inductive Step (s : WatchState) : WatchAction → WatchState → List Notice → Prop
  /-- A call is refused, or the backend has reported a fault. -/
  | stays {a : WatchAction} {log : List Notice} (ha : a.mayStay = true)
      (hlog : ∀ n ∈ log, n.isSilent = true) : Step s a s log
  | opens {backend : Backend} {paths : List Path} {r : Reaction} {log : List Notice}
      (hwatch : s.watcher.watch backend s.disk paths = .ok r)
      (hlog : ∀ n ∈ log, n.isSilent = true) :
      Step s (.watch backend paths) { s with watcher := r.watcher } log
  | closes (hdue : s.due = []) : Step s .close { s with watcher := s.watcher.close } []
  | adds {backend : Backend} {path : Path} {w : Watcher} {faults : List Notice}
      (hwatching : s.watcher.isWatching = true)
      (htable : w.table = Watcher.withFile s.watcher.table (Watcher.resolve s.disk path)
        (s.disk.look (Watcher.resolve s.disk path)))
      (hpending : w.pending = s.watcher.pending) (hfaults : ∀ n ∈ faults, n.isSilent = true) :
      Step s (.addFile backend path) { s with watcher := w }
        (addedNotices (Watcher.resolve s.disk path)
          (s.disk.look (Watcher.resolve s.disk path)) ++ faults)
  | drops {path : Path} (hwatching : s.watcher.isWatching = true) :
      Step s (.removeFile path)
        { s with watcher := { s.watcher with
          table := Watcher.withoutFile s.watcher.table (Watcher.resolve s.disk path) } }
        [.dropped (Watcher.resolve s.disk path)]
  | notes {kind : NotificationKind} {paths : List Path} {now : UInt64} (hdue : s.due = []) :
      Step s (.notify kind paths now) { s with watcher := s.watcher.notify kind paths now } []
  | drains {now : UInt64} {d : Debouncer} (hdue : s.due = [])
      (hpending : s.watcher.pending = some d) :
      Step s (.drain now)
        { s with
          watcher := { s.watcher with pending := some (d.drain now).2 }
          due := (d.drain now).1.map Prod.fst } []
  | settles {time : Timestamp} {p : Path} {rest : List Path} (hdue : s.due = p :: rest) :
      Step s (.settle time)
        { s with
          watcher := { s.watcher with table := (s.watcher.table.settle s.disk time p).2 }
          due := rest }
        ((s.watcher.table.settle s.disk time p).1.map fun c => .event (.change c))
  | edits {disk : FileTree} : Step s (.edit disk) { s with disk } []

theorem isSilent_map_event {events : List WatchEvent} (h : ∀ e ∈ events, e.isChange = false) :
    ∀ n ∈ events.map Notice.event, n.isSilent = true := by
  intro n hn
  obtain ⟨e, he, rfl⟩ := List.mem_map.mp hn
  rw [Notice.isSilent, h e he]
  rfl

/-- **Everything that an action can do is a step.** -/
theorem step_of_act? {a : WatchAction} (h : s.act? a = some (s', log)) : s.Step a s' log := by
  have hstays : a.mayStay = true → some (s, []) = some (s', log) → s.Step a s' log := by
    intro ha hsame
    obtain ⟨rfl, rfl⟩ := Prod.mk.inj (Option.some.inj hsame)
    exact .stays ha fun n hn => nomatch hn
  cases a with
  | watch backend paths =>
    rw [act?] at h
    cases hwatch : s.watcher.watch backend s.disk paths with
    | error fault =>
      rw [hwatch] at h
      exact hstays rfl h
    | ok r =>
      rw [hwatch] at h
      obtain ⟨rfl, rfl⟩ := Prod.mk.inj (Option.some.inj h)
      exact .opens hwatch (isSilent_map_event (Watcher.watch_eq_ok hwatch).2.2.2.1)
  | close =>
    rw [act?, Option.ite_none_right_eq_some] at h
    obtain ⟨hdue, h⟩ := h
    obtain ⟨rfl, rfl⟩ := Prod.mk.inj (Option.some.inj h)
    exact .closes (List.isEmpty_iff.mp hdue)
  | addFile backend path =>
    rw [act?] at h
    cases hadd : s.watcher.addFile backend s.disk path with
    | error fault =>
      rw [hadd] at h
      exact hstays rfl h
    | ok r =>
      rw [hadd] at h
      obtain ⟨rfl, rfl⟩ := Prod.mk.inj (Option.some.inj h)
      obtain ⟨hwatching, htable, hpending, hevents⟩ := Watcher.addFile_eq_ok hadd
      exact .adds hwatching htable hpending (isSilent_map_event hevents)
  | removeFile path =>
    rw [act?] at h
    cases hremove : s.watcher.removeFile s.disk path with
    | error fault =>
      rw [hremove] at h
      exact hstays rfl h
    | ok answer =>
      obtain ⟨was, w⟩ := answer
      rw [hremove] at h
      obtain ⟨rfl, rfl⟩ := Prod.mk.inj (Option.some.inj h)
      obtain ⟨hwatching, rfl⟩ := Watcher.removeFile_eq_ok hremove
      exact .drops hwatching
  | notify kind paths now =>
    rw [act?, Option.ite_none_right_eq_some] at h
    obtain ⟨hdue, h⟩ := h
    obtain ⟨rfl, rfl⟩ := Prod.mk.inj (Option.some.inj h)
    exact .notes (List.isEmpty_iff.mp hdue)
  | complain fault =>
    rw [act?, Option.ite_none_right_eq_some] at h
    obtain ⟨rfl, rfl⟩ := Prod.mk.inj (Option.some.inj h.2)
    exact .stays rfl fun n hn => by
      rw [List.mem_singleton.mp hn]
      rfl
  | drain now =>
    rw [act?] at h
    split at h
    · rename_i d hdue hpending
      obtain ⟨rfl, rfl⟩ := Prod.mk.inj (Option.some.inj h)
      exact .drains hdue hpending
    · cases h
  | settle time =>
    rw [act?] at h
    split at h
    · cases h
    · rename_i p rest hdue
      obtain ⟨rfl, rfl⟩ := Prod.mk.inj (Option.some.inj h)
      exact .settles hdue
  | edit disk =>
    obtain ⟨rfl, rfl⟩ := Prod.mk.inj (Option.some.inj h)
    exact .edits

/-! ## 4. Runs -/

@[simp] theorem run?_nil (s : WatchState) : s.run? [] = some (s, []) := rfl

theorem run?_cons_eq_some_iff {a : WatchAction} {rest : List WatchAction} :
    s.run? (a :: rest) = some (s', log) ↔
      ∃ mid first others, s.act? a = some (mid, first) ∧ mid.run? rest = some (s', others) ∧
        log = first ++ others := by
  rw [run?, Option.bind_eq_some_iff]
  constructor
  · rintro ⟨⟨mid, first⟩, hact, hrest⟩
    obtain ⟨⟨last, others⟩, hrun, hpair⟩ := Option.map_eq_some_iff.mp hrest
    obtain ⟨rfl, rfl⟩ := Prod.mk.inj hpair
    exact ⟨mid, first, others, hact, hrun, rfl⟩
  · rintro ⟨mid, first, others, hact, hrun, rfl⟩
    exact ⟨(mid, first), hact, Option.map_eq_some_iff.mpr ⟨(s', others), hrun, rfl⟩⟩

/-- Runs can be put together. -/
theorem run?_append {as bs : List WatchAction} {mid : WatchState} {log' : List Notice}
    (has : s.run? as = some (mid, log)) (hbs : mid.run? bs = some (s', log')) :
    s.run? (as ++ bs) = some (s', log ++ log') := by
  induction as generalizing s log with
  | nil =>
    obtain ⟨rfl, rfl⟩ := Prod.mk.inj (Option.some.inj has)
    exact hbs
  | cons a as ih =>
    obtain ⟨next, first, others, hact, hrest, rfl⟩ := run?_cons_eq_some_iff.mp has
    rw [List.cons_append, List.append_assoc]
    exact run?_cons_eq_some_iff.mpr ⟨next, first, _, hact, ih hrest, rfl⟩

/-- **A drain and the looks after it are one `settleDue`**, on a disk that stays as it is. -/
theorem run?_settleDue (w : Watcher) (disk : FileTree) (time : Timestamp)
    (now : UInt64) {d : Debouncer}
    (hd : w.pending = some d) :
    run? ⟨w, disk, []⟩ (.drain now :: (d.drain now).1.map fun _ => .settle time) =
      some (⟨(w.settleDue disk time now).2, disk, []⟩,
        (w.settleDue disk time now).1.map fun c => .event (.change c)) := by
  have hlooks : ∀ (due : List Path) (w : Watcher),
      run? ⟨w, disk, due⟩ (due.map fun _ => .settle time) =
      some (⟨{ w with table := (w.table.settleAll disk time due).2 }, disk, []⟩,
        (w.table.settleAll disk time due).1.map fun c => .event (.change c)) := by
    intro due
    induction due with
    | nil => exact fun w => rfl
    | cons p rest ih =>
      intro w
      rw [List.map_cons, run?, act?]
      simp only [Option.bind_some, ih, Option.map_some, WatchTable.settleAll, List.map_append]
  have hdrain : act? ⟨w, disk, []⟩ (.drain now) =
      some (⟨{ w with pending := some (d.drain now).2 }, disk,
        (d.drain now).1.map Prod.fst⟩, []) := by
    simp only [act?, hd]
  have hsame : ((d.drain now).1.map fun _ => WatchAction.settle time) =
      ((d.drain now).1.map Prod.fst).map fun _ => .settle time := by
    rw [List.map_map]
    rfl
  rw [run?, hdrain, hsame]
  simp only [Option.bind_some, hlooks, Option.map_some, List.nil_append, Watcher.settleDue, hd]

end WatchState
end AnalysisRunner
