import AnalysisRunner.Proofs.Path.Table
import AnalysisRunner.Proofs.Watch.Debounce
import AnalysisRunner.Proofs.Watch.Machine
import AnalysisRunner.Proofs.Watch.Scan

/-!
# Events tell what is watched

Whoever listens to a watcher can keep the set of watched files without asking for it.  The
set starts as it is when watching begins; then a file comes in when it is reported as added
or a call has begun to track it, and it goes out when it is reported as removed or a call has
dropped it.  At every moment this is the set of watched files, and no event contradicts it
(`WatchState.events_tell_what_is_watched`).

`Tells` is this for two tables and the notices in between; it is reflexive and transitive, so
what is left is one look at a path.  A look compares what was seen with what is there, and a
file that was seen has a signature (`WatchTable.Sound`): otherwise a watched file could be
reported as added.
-/

namespace AnalysisRunner

/-! ## 1. Keeping the set -/

namespace Notice

/-- Whether a notice is the report of a change. -/
def isChange : Notice → Bool
  | .event e => e.isChange
  | _ => false

/-- The watched files after a notice. -/
def take (set : PathSet) : Notice → PathSet
  | .event (.change c) =>
    match c.kind with
    | .add => set.add c.path
    | .change => set
    | .remove => set.remove c.path
  | .event _ => set
  | .added p => set.add p
  | .dropped p => set.remove p

/-- Whether a notice is no contradiction: what is reported as added was not watched, and
anything else that is reported was. -/
def Fits (set : PathSet) : Notice → Prop
  | .event (.change c) => set.has c.path = true ↔ c.kind ≠ .add
  | _ => True

/-- The watched files after several notices. -/
def replay (set : PathSet) (log : List Notice) : PathSet :=
  log.foldl take set

/-- Whether no notice contradicts the ones before it. -/
def AllFit : PathSet → List Notice → Prop
  | _, [] => True
  | set, n :: rest => n.Fits set ∧ AllFit (n.take set) rest

theorem allFit_append {set : PathSet} {log log' : List Notice} (h : AllFit set log)
    (h' : AllFit (replay set log) log') : AllFit set (log ++ log') := by
  induction log generalizing set with
  | nil => exact h'
  | cons n rest ih => exact ⟨h.1, ih h.2 h'⟩

/-- A notice about no file leaves the set alone. -/
theorem take_of_isSilent {n : Notice} (h : n.isSilent = true) (set : PathSet) :
    n.take set = set ∧ n.Fits set ∧ n.isChange = false := by
  cases n with
  | event e =>
    cases e with
    | ready files => exact ⟨rfl, trivial, rfl⟩
    | change c => cases h
    | error message paths => exact ⟨rfl, trivial, rfl⟩
  | added p => cases h
  | dropped p => cases h

end Notice

namespace WatchTable

variable {t t' t'' : WatchTable} {log log' : List Notice}

/-- Whether notices tell how the watched files of one table have become those of another, and
how many changes were counted. -/
structure Tells (t : WatchTable) (log : List Notice) (t' : WatchTable) : Prop where
  counts : t'.changes = t.changes + log.countP Notice.isChange
  fits : ∀ set : PathSet, set.SamePaths t.tracked → Notice.AllFit set log
  leads : ∀ set : PathSet, set.SamePaths t.tracked → (Notice.replay set log).SamePaths t'.tracked

namespace Tells

theorem nil (htracked : t'.tracked = t.tracked) (hchanges : t'.changes = t.changes) :
    Tells t [] t' :=
  ⟨hchanges, fun _ _ => trivial, fun _ h => htracked ▸ h⟩

theorem trans (h : Tells t log t') (h' : Tells t' log' t'') : Tells t (log ++ log') t'' := by
  refine ⟨?_, fun set hset => ?_, fun set hset => ?_⟩
  · rw [h'.counts, h.counts, List.countP_append, Nat.add_assoc]
  · exact Notice.allFit_append (h.fits set hset) (h'.fits _ (h.leads set hset))
  · rw [Notice.replay, List.foldl_append]
    exact h'.leads _ (h.leads set hset)

theorem of_isSilent (h : ∀ n ∈ log, n.isSilent = true) (t : WatchTable) : Tells t log t := by
  induction log with
  | nil => exact nil rfl rfl
  | cons n rest ih =>
    have hrest := ih fun m hm => h m (List.mem_cons_of_mem _ hm)
    have hsilent := Notice.take_of_isSilent (h n (List.mem_cons_self ..))
    refine ⟨?_, fun set hset => ?_, fun set hset => ?_⟩
    · rw [List.countP_cons_of_neg (by rw [(hsilent .empty).2.2]; exact Bool.false_ne_true)]
      exact hrest.counts
    · exact ⟨(hsilent set).2.1, (hsilent set).1.symm ▸ hrest.fits set hset⟩
    · rw [Notice.replay, List.foldl_cons, (hsilent set).1]
      exact hrest.leads set hset

theorem add {p : Path} (hp : t.tracked.has p = false) (signature : Option Signature)
    (time : Timestamp) :
    Tells t [.event (.change ⟨p, .add, time⟩)] ((t.track p signature).count time) := by
  refine ⟨rfl, fun set hset => ⟨?_, trivial⟩, fun set hset => hset.put p () _⟩
  show set.has p = true ↔ _
  rw [hset.has_eq, hp]
  simp

theorem change {p : Path} (hp : t.tracked.has p = true) (signature : Option Signature)
    (time : Timestamp) :
    Tells t [.event (.change ⟨p, .change, time⟩)] ((t.track p signature).count time) := by
  refine ⟨rfl, fun set hset => ⟨?_, trivial⟩, fun set hset => hset.put_right hp _⟩
  show set.has p = true ↔ _
  rw [hset.has_eq, hp]
  simp

theorem remove {p : Path} (hp : t.tracked.has p = true) (time : Timestamp) :
    Tells t [.event (.change ⟨p, .remove, time⟩)] (t.lose time p) := by
  refine ⟨rfl, fun set hset => ⟨?_, trivial⟩, fun set hset => hset.remove p⟩
  show set.has p = true ↔ _
  rw [hset.has_eq, hp]
  simp

theorem removeAll {gone : List Path} (hnodup : (gone.map Path.components).Nodup)
    (hgone : ∀ p ∈ gone, t.tracked.has p = true) (time : Timestamp) :
    Tells t (gone.map fun p => .event (.change ⟨p, .remove, time⟩)) (gone.foldl (lose time) t) := by
  induction gone generalizing t with
  | nil => exact nil rfl rfl
  | cons p rest ih =>
    rw [List.map_cons, List.nodup_cons] at hnodup
    refine (remove (hgone p (List.mem_cons_self ..)) time).trans (ih hnodup.2 ?_)
    intro q hq
    have hne : q.components ≠ p.components := by
      intro hsame
      exact hnodup.1 (hsame ▸ List.mem_map_of_mem hq)
    show (t.tracked.remove p).has q = true
    rw [PathTable.has_remove, hgone q (List.mem_cons_of_mem _ hq)]
    simp [hne]

end Tells

/-! ## 2. Looks -/

/-- What holds of every table: paths stand under their own keys, and what is tracked was
seen. -/
structure Sound (t : WatchTable) : Prop where
  keyed : t.tracked.Keyed
  seen : ∀ p e, t.tracked.find? p = some e → e.signature.isSome = true

theorem Sound.of_tracked (h : t.Sound) (htracked : t'.tracked = t.tracked) : t'.Sound :=
  ⟨htracked ▸ h.keyed, htracked ▸ h.seen⟩

theorem Sound.track (h : t.Sound) (p : Path) {signature : Option Signature}
    (hseen : signature.isSome = true) : (t.track p signature).Sound := by
  refine ⟨h.keyed.put p _, ?_⟩
  intro q e he
  rw [WatchTable.track, PathTable.find?_put] at he
  split at he
  · rw [← Option.some.inj he]
    exact hseen
  · exact h.seen q e he

theorem Sound.untrack (h : t.Sound) (p : Path) : (t.untrack p).Sound := by
  refine ⟨h.keyed.remove p, ?_⟩
  intro q e he
  rw [WatchTable.untrack, PathTable.find?_remove] at he
  split at he
  · cases he
  · exact h.seen q e he

theorem Sound.count (h : t.Sound) (time : Timestamp) : (t.count time).Sound :=
  h.of_tracked rfl

theorem Sound.foldl_lose (h : t.Sound) (gone : List Path) (time : Timestamp) :
    (gone.foldl (lose time) t).Sound := by
  induction gone generalizing t with
  | nil => exact h
  | cons p rest ih => exact ih ((h.untrack p).count time)

/-- The notices of changes. -/
def notices (changes : List Change) : List Notice :=
  changes.map fun c => .event (.change c)

theorem tells_apply (h : t.Sound) (time : Timestamp) (p : Path) (current : Option Signature) :
    Tells t (notices (t.apply time p current).1) (t.apply time p current).2 ∧
      (t.apply time p current).2.Sound := by
  have hhas := t.tracked.has_eq_isSome_find? p
  unfold apply
  split
  · exact ⟨.nil rfl rfl, h⟩
  · cases hfind : t.tracked.find? p with
    | none =>
      rw [hfind] at hhas
      cases current with
      | none =>
        have hgone : ∀ q ∈ t.trackedBelow p, t.tracked.has q = true := fun q hq =>
          h.keyed.has_of_mem_sortedPaths (List.mem_filter.mp hq).1
        have hnodup : ((t.trackedBelow p).map Path.components).Nodup :=
          h.keyed.nodup_sortedPaths.sublist (List.filter_sublist.map _)
        refine ⟨?_, h.foldl_lose _ time⟩
        have htells := Tells.removeAll hnodup hgone time
        simpa [notices, List.map_map, Function.comp_def] using htells
      | some s =>
        dsimp only [Option.map_none]
        split
        · exact ⟨.add hhas _ time, (h.track p rfl).count time⟩
        · exact ⟨.nil rfl rfl, h⟩
    | some e =>
      rw [hfind] at hhas
      obtain ⟨previous, hprevious⟩ := Option.isSome_iff_exists.mp (h.seen p e hfind)
      rw [Option.map_some, hprevious]
      cases current with
      | none => exact ⟨.remove hhas time, (h.untrack p).count time⟩
      | some s =>
        dsimp only
        split
        · exact ⟨.nil rfl rfl, h⟩
        · exact ⟨.change hhas _ time, (h.track p rfl).count time⟩

theorem tells_discover (h : t.Sound) (time : Timestamp) {entries : List WatchEntry}
    (hentries : ∀ e ∈ entries, e.signature.isSome = true) :
    Tells t (notices (t.discover time entries).1) (t.discover time entries).2 ∧
      (t.discover time entries).2.Sound := by
  induction entries generalizing t with
  | nil => exact ⟨.nil rfl rfl, h⟩
  | cons e rest ih =>
    have hrest : ∀ e ∈ rest, e.signature.isSome = true := fun e he =>
      hentries e (List.mem_cons_of_mem _ he)
    rw [discover]
    split
    · exact ih h hrest
    · rename_i hnew
      have hp : t.tracked.has e.path = false := by
        simp at hnew
        exact hnew.1
      have hsound := (h.track e.path (hentries e (List.mem_cons_self ..))).count time
      obtain ⟨htells, hsound'⟩ := ih hsound hrest
      exact ⟨(Tells.add hp e.signature time).trans htells, hsound'⟩

/-- **A look reports what it changes, and keeps the table sound.** -/
theorem tells_settle (h : t.Sound) (disk : FileTree) (time : Timestamp) (p : Path) :
    Tells t (notices (t.settle disk time p).1) (t.settle disk time p).2 ∧
      (t.settle disk time p).2.Sound := by
  unfold settle
  cases disk.look p with
  | missing => exact tells_apply h time p none
  | file signature => exact tells_apply h time p (some signature)
  | directory =>
    dsimp only
    cases t.rootFor p with
    | none => exact ⟨.nil rfl rfl, h⟩
    | some root =>
      refine tells_discover h time ?_
      intro e he
      obtain ⟨s, hs, -⟩ := FileTree.look_of_mem_scan he
      rw [hs]
      rfl

end WatchTable

/-! ## 3. Steps -/

namespace Watcher

/-- A table at the beginning of a session holds what was seen, and counts on. -/
theorem sound_opened (t : WatchTable) (roots : List Path) {scanned files : List WatchEntry}
    (hscanned : ∀ e ∈ scanned, e.signature.isSome = true)
    (hfiles : ∀ e ∈ files, e.signature.isSome = true) :
    (opened t roots scanned files).Sound ∧ (opened t roots scanned files).changes = t.changes := by
  have hfold : ∀ (entries : List WatchEntry) (f : WatchTable → Path → WatchTable) (t : WatchTable),
      (∀ t p, (f t p).tracked = t.tracked ∧ (f t p).changes = t.changes) →
      (∀ e ∈ entries, e.signature.isSome = true) → t.Sound →
        (entries.foldl (fun t e => (f t e.path).track e.path e.signature) t).Sound ∧
          (entries.foldl (fun t e => (f t e.path).track e.path e.signature) t).changes =
            t.changes := by
    intro entries f
    induction entries with
    | nil => exact fun t _ _ h => ⟨h, rfl⟩
    | cons e rest ih =>
      intro t hf hentries h
      have hfirst := (h.of_tracked (hf t e.path).1).track e.path
        (hentries e (List.mem_cons_self ..))
      obtain ⟨hsound, hchanges⟩ :=
        ih _ hf (fun e he => hentries e (List.mem_cons_of_mem _ he)) hfirst
      exact ⟨hsound, hchanges.trans (hf t e.path).2⟩
  have hempty : ({ t.forget with roots } : WatchTable).Sound :=
    ⟨.empty, fun p e he => nomatch he⟩
  obtain ⟨hsound, hchanges⟩ :=
    hfold scanned (fun t _ => t) _ (fun _ _ => ⟨rfl, rfl⟩) hscanned hempty
  obtain ⟨hsound', hchanges'⟩ := hfold files
    (fun t p => { t with explicit := PathSet.add t.explicit p }) _
      (fun _ _ => ⟨rfl, rfl⟩) hfiles hsound
  exact ⟨hsound', hchanges'.trans hchanges⟩

theorem seen_of_mem_scanAll {disk : FileTree} {filter : Filter} {roots : List Path} {e : WatchEntry}
    (h : e ∈ scanAll disk filter roots) : e.signature.isSome = true := by
  obtain ⟨root, -, he⟩ := List.mem_flatMap.mp h
  obtain ⟨s, hs, -⟩ := FileTree.look_of_mem_scan he
  rw [hs]
  rfl

theorem seen_of_mem_filesAmong {disk : FileTree} {paths : List Path} {e : WatchEntry}
    (h : e ∈ filesAmong disk paths) : e.signature.isSome = true := by
  obtain ⟨x, hx, he⟩ := List.mem_flatMap.mp h
  obtain ⟨p, -, rfl⟩ := List.mem_map.mp hx
  unfold classify at he
  split at he
  · cases he
  · split at he
    · cases he
    · rw [List.mem_singleton.mp he]
      rfl
    · cases he

end Watcher

namespace WatchState

variable {s s' : WatchState} {a : WatchAction} {log : List Notice}

theorem tells_withFile (t : WatchTable) (path : Path) (sight : Sight) :
    t.Tells (addedNotices path sight) (Watcher.withFile t path sight) := by
  cases sight with
  | missing => exact .nil rfl rfl
  | directory => exact .nil rfl rfl
  | file signature =>
    exact ⟨rfl, fun _ _ => ⟨trivial, trivial⟩, fun _ hset => hset.put path () _⟩

theorem sound_withFile {t : WatchTable} (h : t.Sound) (path : Path) (sight : Sight) :
    (Watcher.withFile t path sight).Sound := by
  cases sight with
  | missing => exact h.of_tracked rfl
  | directory => exact h.of_tracked rfl
  | file signature =>
    have hsound : ({ t with
        excluded := t.excluded.remove path
        explicit := PathSet.add t.explicit path } : WatchTable).Sound := h.of_tracked rfl
    exact hsound.track path (Option.isSome_some (a := signature))

theorem tells_withoutFile (t : WatchTable) (path : Path) :
    t.Tells [.dropped path] (Watcher.withoutFile t path) :=
  ⟨rfl, fun _ _ => ⟨trivial, trivial⟩, fun _ hset => hset.remove path⟩

theorem table_notify (w : Watcher) (kind : NotificationKind) (paths : List Path) (now : UInt64) :
    (w.notify kind paths now).table = w.table := by
  unfold Watcher.notify
  split <;> rfl

/-- **A step tells what it does to the watched files**, unless the watcher begins or ceases to
watch; then nothing is reported and nothing is counted. -/
theorem Step.tells (hstep : s.Step a s' log) (hsound : s.watcher.table.Sound) :
    s.watcher.table.Tells log s'.watcher.table ∨
      (a = .close ∨ s.watcher.isWatching = false) ∧ log.countP Notice.isChange = 0 ∧
        s'.watcher.table.changes = s.watcher.table.changes := by
  cases hstep with
  | stays _ hlog => exact .inl (.of_isSilent hlog _)
  | opens hwatch hlog =>
    obtain ⟨hidle, htable, -, -, -⟩ := Watcher.watch_eq_ok hwatch
    refine .inr ⟨.inr (by rw [Watcher.isWatching, hidle]; rfl), ?_, ?_⟩
    · refine List.countP_eq_zero.mpr fun n hn => ?_
      rw [(Notice.take_of_isSilent (hlog n hn) .empty).2.2]
      exact Bool.false_ne_true
    · show WatchTable.changes _ = _
      rw [htable]
      exact (Watcher.sound_opened _ _ (fun e => Watcher.seen_of_mem_scanAll)
        (fun e => Watcher.seen_of_mem_filesAmong)).2
  | closes _ => exact .inr ⟨.inl rfl, rfl, rfl⟩
  | adds _ htable _ hfaults =>
    refine .inl ((tells_withFile _ _ _).trans ?_)
    show WatchTable.Tells _ _ _
    rw [htable]
    exact .of_isSilent hfaults _
  | drops _ => exact .inl (tells_withoutFile _ _)
  | notes _ => exact .inl (.nil (by rw [table_notify]) (by rw [table_notify]))
  | drains _ _ => exact .inl (.nil rfl rfl)
  | settles _ => exact .inl (WatchTable.tells_settle hsound s.disk _ _).1
  | edits => exact .inl (.nil rfl rfl)

theorem Step.sound (hstep : s.Step a s' log) (hsound : s.watcher.table.Sound) :
    s'.watcher.table.Sound := by
  cases hstep with
  | stays _ _ => exact hsound
  | opens hwatch _ =>
    show WatchTable.Sound _
    rw [(Watcher.watch_eq_ok hwatch).2.1]
    exact (Watcher.sound_opened _ _ (fun e => Watcher.seen_of_mem_scanAll)
      (fun e => Watcher.seen_of_mem_filesAmong)).1
  | closes _ => exact ⟨.empty, fun p e he => nomatch he⟩
  | adds _ htable _ _ =>
    show WatchTable.Sound _
    rw [htable]
    exact sound_withFile hsound _ _
  | drops _ => exact (hsound.untrack _).of_tracked rfl
  | notes _ => exact hsound.of_tracked (by rw [table_notify])
  | drains _ _ => exact hsound
  | settles _ => exact (WatchTable.tells_settle hsound s.disk _ _).2
  | edits => exact hsound

/-- Only a call ends watching. -/
theorem Step.isWatching (hstep : s.Step a s' log) (hwatching : s.watcher.isWatching = true)
    (ha : a ≠ .close) : s'.watcher.isWatching = true := by
  cases hstep with
  | stays _ _ => exact hwatching
  | opens hwatch _ =>
    show Option.isSome _ = true
    rw [(Watcher.watch_eq_ok hwatch).2.2.1]
    rfl
  | closes _ => exact absurd rfl ha
  | adds _ _ hpending _ =>
    show Option.isSome _ = true
    rw [hpending]
    exact hwatching
  | drops _ => exact hwatching
  | notes _ =>
    show Option.isSome (Watcher.notify _ _ _ _).pending = true
    unfold Watcher.notify
    split
    · rfl
    · exact hwatching
  | drains _ _ => rfl
  | settles _ => exact hwatching
  | edits => exact hwatching

/-! ## 4. Runs -/

theorem sound_run {as : List WatchAction} (hrun : s.run? as = some (s', log))
    (hsound : s.watcher.table.Sound) : s'.watcher.table.Sound := by
  induction as generalizing s log with
  | nil =>
    obtain ⟨rfl, -⟩ := Prod.mk.inj (Option.some.inj hrun)
    exact hsound
  | cons a as ih =>
    obtain ⟨mid, first, others, hact, hrest, -⟩ := run?_cons_eq_some_iff.mp hrun
    exact ih hrest ((step_of_act? hact).sound hsound)

/-- Over all sessions, the changes that are counted are those that are reported. -/
theorem changes_run {as : List WatchAction} (hrun : s.run? as = some (s', log))
    (hsound : s.watcher.table.Sound) :
    s'.watcher.table.changes = s.watcher.table.changes + log.countP Notice.isChange := by
  induction as generalizing s log with
  | nil =>
    obtain ⟨rfl, rfl⟩ := Prod.mk.inj (Option.some.inj hrun)
    rfl
  | cons a as ih =>
    obtain ⟨mid, first, others, hact, hrest, rfl⟩ := run?_cons_eq_some_iff.mp hrun
    have hstep := step_of_act? hact
    have hfirst : mid.watcher.table.changes =
        s.watcher.table.changes + first.countP Notice.isChange := by
      rcases hstep.tells hsound with htells | ⟨-, hnone, hsame⟩
      · exact htells.counts
      · rw [hnone, hsame, Nat.add_zero]
    rw [ih hrest (hstep.sound hsound), hfirst, List.countP_append, Nat.add_assoc]

/-- Within a session the notices tell what happens to the watched files. -/
theorem tells_run {as : List WatchAction} (hrun : s.run? as = some (s', log))
    (hsound : s.watcher.table.Sound) (hwatching : s.watcher.isWatching = true)
    (hopen : WatchAction.close ∉ as) : s.watcher.table.Tells log s'.watcher.table := by
  induction as generalizing s log with
  | nil =>
    obtain ⟨rfl, rfl⟩ := Prod.mk.inj (Option.some.inj hrun)
    exact .nil rfl rfl
  | cons a as ih =>
    obtain ⟨mid, first, others, hact, hrest, rfl⟩ := run?_cons_eq_some_iff.mp hrun
    rw [List.mem_cons, not_or] at hopen
    have hstep := step_of_act? hact
    have hfirst : s.watcher.table.Tells first mid.watcher.table := by
      rcases hstep.tells hsound with htells | ⟨hend | hidle, -, -⟩
      · exact htells
      · exact absurd hend.symm hopen.1
      · rw [hwatching] at hidle
        cases hidle
    exact hfirst.trans (ih hrest (hstep.sound hsound) (hstep.isWatching hwatching (Ne.symm hopen.1))
      hopen.2)

end WatchState

/-- The files of a table as a set. -/
def WatchTable.watchSet (t : WatchTable) : PathSet :=
  t.tracked.mapValues fun _ x => (x.1, ())

theorem WatchTable.samePaths_watchSet (t : WatchTable) : t.watchSet.SamePaths t.tracked := by
  intro k
  rw [watchSet, Table.get?_mapValues, Option.map_map]
  rfl

theorem WatchTable.length_files (t : WatchTable) : t.files.length = t.tracked.size := by
  rw [files, PathTable.sortedPaths, PathTable.sorted, List.length_map, List.length_map,
    List.length_mergeSort]
  rfl

namespace WatchState

/-- **Events tell what is watched.**  Over all sessions of a watcher, the changes that are counted
are those that are reported.  And when a session begins, the watcher says that it is ready;
from then on, keeping the set of watched files by what is noticed gives at every moment the
files that the watcher would show, and no event contradicts the set before it. -/
theorem events_tell_what_is_watched {options : WatcherOptions} {w : Watcher}
    (hnew : Watcher.new options = .ok w) (disk : FileTree) :
    (∀ as s log, run? ⟨w, disk, []⟩ as = some (s, log) →
      s.watcher.table.changes = log.countP Notice.isChange) ∧
    ∀ before s₀ log₀, run? ⟨w, disk, []⟩ before = some (s₀, log₀) →
      ∀ backend paths r, s₀.watcher.watch backend s₀.disk paths = .ok r →
        .ready r.watcher.table.files.length ∈ r.events ∧
        ∀ after s log, run? { s₀ with watcher := r.watcher } after = some (s, log) →
          WatchAction.close ∉ after →
            Notice.AllFit r.watcher.table.watchSet log ∧
            (Notice.replay r.watcher.table.watchSet log).sortedPaths = s.watcher.table.files := by
  have hw : w.table.Sound ∧ w.table.changes = 0 := by
    unfold Watcher.new at hnew
    split at hnew
    · obtain rfl := Except.ok.inj hnew
      exact ⟨⟨.empty, fun p e he => nomatch he⟩, rfl⟩
    · cases hnew
  refine ⟨?_, ?_⟩
  · intro as s log hrun
    have hchanges := changes_run hrun hw.1
    rwa [hw.2, Nat.zero_add] at hchanges
  · intro before s₀ log₀ hbefore backend paths r hwatch
    obtain ⟨-, -, hpending, hevents, hready⟩ := Watcher.watch_eq_ok hwatch
    refine ⟨by rw [WatchTable.length_files]; exact hready, ?_⟩
    intro after s log hafter hopen
    have hopened : s₀.Step (.watch backend paths) { s₀ with watcher := r.watcher } _ :=
      .opens hwatch (isSilent_map_event hevents)
    have hwatching : r.watcher.isWatching = true := by
      rw [Watcher.isWatching, hpending]
      rfl
    have htells := tells_run hafter (hopened.sound (sound_run hbefore hw.1)) hwatching hopen
    have hsame := r.watcher.table.samePaths_watchSet
    exact ⟨htells.fits _ hsame, (htells.leads _ hsame).sortedPaths_eq⟩

/-! ## 5. A file that goes

A watcher watches the file `/a`.  The file goes, the backend notifies about it, and when it
has been quiet for long enough it is looked at. -/

def sampleFile : Path :=
  .ofText "/a"

/-- A disk with the file. -/
def fullDisk : FileTree where
  nodes := Table.empty.insert [[97]] (.file [120] 0)

/-- A disk without it. -/
def bareDisk : FileTree where
  nodes := .empty

/-- Nothing is watched by its extension, and nothing is ignored. -/
def sampleOptions : WatcherOptions :=
  { WatcherOptions.standard with extensions := [], ignored := [] }

def sampleWatcher : Watcher :=
  ⟨sampleOptions, .new ⟨[], []⟩, .empty, none⟩

theorem new_sampleOptions : Watcher.new sampleOptions = .ok sampleWatcher := rfl

/-- A backend that refuses nothing. -/
def sampleBackend : Backend :=
  ⟨none, none, fun _ => none⟩

theorem hops_sampleFile : sampleFile.hops = [.down [97]] := by
  decide

theorem find_fullDisk : fullDisk.find sampleFile = .ok ([[97]], .file [120] 0) := by
  rw [FileTree.find, FileTree.resolve, hops_sampleFile, FileTree.walk]
  rfl

theorem look_bareDisk : bareDisk.look sampleFile = .missing := by
  rw [FileTree.look, FileTree.find, FileTree.resolve, hops_sampleFile, FileTree.walk]
  rfl

/-- The watcher that watches the file. -/
def sampleWatching : Watcher where
  options := sampleOptions
  table := { WatchTable.new ⟨[], []⟩ with
    explicit := PathSet.add .empty sampleFile
    tracked := PathTable.put .empty sampleFile ⟨sampleFile, some ⟨0, 1⟩⟩ }
  subscribed := PathSet.add .empty (.ofText "/")
  pending := some (.new sampleOptions.debounce)

theorem watch_sampleFile : sampleWatcher.watch sampleBackend fullDisk [sampleFile] =
    .ok ⟨sampleWatching, [.ready 1], [.native, .subscribe (.ofText "/") false true]⟩ := by
  have hcanonical : fullDisk.canonical sampleFile = .ok sampleFile := by
    rw [FileTree.canonical, find_fullDisk]
    rfl
  have hlook : fullDisk.look sampleFile = .file ⟨0, 1⟩ := by
    rw [FileTree.look, find_fullDisk]
    rfl
  rw [Watcher.watch]
  simp only [List.map_cons, List.map_nil, Watcher.classify, hcanonical, hlook]
  rfl

/-- What waits for the file to be quiet. -/
def sampleWaiting : Debouncer :=
  (Debouncer.new sampleOptions.debounce).record sampleFile .remove 0

theorem drain_sampleWaiting :
    sampleWaiting.drain 300 = ([(sampleFile, .remove)], .new sampleOptions.debounce) :=
  Debouncer.drain_record_new sampleOptions.debounce sampleFile .remove 0

/-- What happens. -/
def goneActions : List WatchAction :=
  [.edit bareDisk, .notify .remove [sampleFile] 0, .drain 300, .settle ⟨0, 0⟩]

theorem run_goneActions : run? ⟨sampleWatching, fullDisk, []⟩ goneActions =
    some (⟨{ sampleWatching with table := sampleWatching.table.lose ⟨0, 0⟩ sampleFile },
      bareDisk, []⟩, [.event (.change ⟨sampleFile, .remove, ⟨0, 0⟩⟩)]) := by
  have hnotify : sampleWatching.notify .remove [sampleFile] 0 =
      { sampleWatching with pending := some sampleWaiting } := rfl
  have hsettle : sampleWatching.table.settle bareDisk ⟨0, 0⟩ sampleFile =
      ([⟨sampleFile, .remove, ⟨0, 0⟩⟩], sampleWatching.table.lose ⟨0, 0⟩ sampleFile) := by
    rw [WatchTable.settle, look_bareDisk]
    rfl
  simp only [goneActions, run?, act?, List.isEmpty_nil, if_true, hnotify, drain_sampleWaiting,
    List.map_cons, List.map_nil, hsettle, Option.bind_some, Option.map_some]
  rfl

/-- The file was watched when watching began, and it is not after it was reported as removed. -/
theorem events_tell_what_is_watched_gone :
    Notice.AllFit sampleWatching.table.watchSet [.event (.change ⟨sampleFile, .remove, ⟨0, 0⟩⟩)] ∧
      sampleWatching.table.files = [sampleFile] ∧
      (Notice.replay sampleWatching.table.watchSet
        [.event (.change ⟨sampleFile, .remove, ⟨0, 0⟩⟩)]).sortedPaths =
          (sampleWatching.table.lose ⟨0, 0⟩ sampleFile).files ∧
      (sampleWatching.table.lose ⟨0, 0⟩ sampleFile).files = [] := by
  obtain ⟨-, hsession⟩ := events_tell_what_is_watched new_sampleOptions fullDisk
  obtain ⟨-, hlog⟩ := hsession [] _ [] rfl sampleBackend [sampleFile] _ watch_sampleFile
  obtain ⟨hfit, hset⟩ := hlog goneActions _ _ run_goneActions (by simp [goneActions])
  have hbefore : PathTable.sorted sampleWatching.table.tracked =
      [(sampleFile, ⟨sampleFile, some ⟨0, 1⟩⟩)] :=
    congrArg (List.map Prod.snd) (List.mergeSort_singleton _)
  have hafter : PathTable.sorted (sampleWatching.table.lose ⟨0, 0⟩ sampleFile).tracked = [] :=
    congrArg (List.map Prod.snd) List.mergeSort_nil
  exact ⟨hfit, congrArg (List.map Prod.fst) hbefore, hset, congrArg (List.map Prod.fst) hafter⟩

end WatchState
end AnalysisRunner
