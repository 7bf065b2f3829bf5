import AnalysisRunner.Proofs.FileTree.Look
import AnalysisRunner.Proofs.Watch.Debounce
import AnalysisRunner.Proofs.Watch.Log

/-!
# Settled changes

When a tracked file has changed for the last time and a notification about it comes after
that, then once nothing waits at its path the table agrees with the disk there: the file is
tracked with the signature it has, or it is gone, no longer tracked and reported as removed.

A look changes nothing at a path or makes the table agree there
(`WatchTable.find?_settle`).  That holds for looks at other paths too: a directory that is gone
takes a file along only if the file is gone.  So a table that agrees goes on agreeing, and
what is left is that a path which has been named waits until it is looked at (`Step.waits`).
The induction along a run is in `Pursues.run`, for any goal that is kept up and pursued like that.

There is one way out of waiting, and then the change may be missed.  A removal that is notified
while an addition waits cancels it, although the file may have been tracked all the time;
`MergedAway` says so, and `removal_is_missed` is such a run.
-/

namespace AnalysisRunner

theorem PathSet.has_add (set : PathSet) (p q : Path) :
    (set.add p).has q = true ↔ q.components = p.components ∨ set.has q = true := by
  rw [PathSet.add, PathTable.has_put, Bool.or_eq_true, decide_eq_true_iff]

theorem Watcher.explicit_withFile (t : WatchTable) (path : Path) (sight : Sight) :
    (withFile t path sight).explicit = PathSet.add t.explicit path := by
  cases sight <;> rfl

theorem Watcher.excluded_withFile (t : WatchTable) (path : Path) (sight : Sight) :
    (withFile t path sight).excluded = t.excluded.remove path := by
  cases sight <;> rfl

theorem Watcher.roots_withFile (t : WatchTable) (path : Path) (sight : Sight) :
    (withFile t path sight).roots = t.roots := by
  cases sight <;> rfl

/-! ## 1. A look and one path -/

/-- What is tracked of a path at which this is seen: the signature of a file, and nothing
else. -/
def Sight.tracked? : Sight → Option (Option Signature)
  | .file s => some (some s)
  | _ => none

namespace WatchTable

variable {t : WatchTable} {disk : FileTree} {p q : Path} {time : Timestamp}

/-- Whether a table agrees with what is seen at a path. -/
def Agrees (t : WatchTable) (p : Path) (sight : Sight) : Prop :=
  (t.tracked.find? p).map WatchEntry.signature = sight.tracked?

theorem foldl_lose_eq (gone : List Path) (time : Timestamp) (t : WatchTable) :
    (gone.foldl (lose time) t).excluded = t.excluded ∧
      (gone.foldl (lose time) t).tracked =
        (gone.map Path.components).foldl (fun t k => t.erase k) t.tracked := by
  induction gone generalizing t with
  | nil => exact ⟨rfl, rfl⟩
  | cons p rest ih => exact ih (t.lose time p)

theorem find?_discover (t : WatchTable) (time : Timestamp) (entries : List WatchEntry) (p : Path) :
    (t.discover time entries).2.excluded = t.excluded ∧
      ((t.discover time entries).2.tracked.find? p = t.tracked.find? p ∨
        ∃ e ∈ entries, e.path.components = p.components ∧
          (t.discover time entries).2.tracked.find? p = some ⟨e.path, e.signature⟩) := by
  induction entries generalizing t with
  | nil => exact ⟨rfl, .inl rfl⟩
  | cons e rest ih =>
    rw [discover]
    split
    · obtain ⟨hexcluded, hfind⟩ := ih t
      refine ⟨hexcluded, hfind.imp_right ?_⟩
      rintro ⟨e', he', hfound⟩
      exact ⟨e', List.mem_cons_of_mem _ he', hfound⟩
    · obtain ⟨hexcluded, hfind⟩ := ih ((t.track e.path e.signature).count time)
      refine ⟨hexcluded, ?_⟩
      rcases hfind with hsame | ⟨e', he', hfound⟩
      · by_cases hp : p.components = e.path.components
        · refine .inr ⟨e, List.mem_cons_self .., hp.symm, hsame.trans ?_⟩
          exact (PathTable.find?_put ..).trans (if_pos hp)
        · exact .inl (hsame.trans ((PathTable.find?_put ..).trans (if_neg hp)))
      · exact .inr ⟨e', List.mem_cons_of_mem _ he', hfound⟩

theorem excluded_apply (t : WatchTable) (time : Timestamp) (p : Path) (current : Option Signature) :
    (t.apply time p current).2.excluded = t.excluded := by
  unfold apply
  split
  · rfl
  · split
    · rfl
    · rfl
    · rfl
    · split <;> rfl
    · split <;> rfl
    · exact (foldl_lose_eq _ time t).1

theorem excluded_settle (t : WatchTable) (disk : FileTree) (time : Timestamp) (p : Path) :
    (t.settle disk time p).2.excluded = t.excluded := by
  unfold settle
  split
  · split
    · rfl
    · exact (find?_discover _ _ _ p).1
  · exact excluded_apply ..
  · exact excluded_apply ..

/-- Whether two tables watch the same directories and name the same files. -/
def SameScope (t t' : WatchTable) : Prop :=
  t'.roots = t.roots ∧ t'.explicit = t.explicit

theorem sameScope_foldl_lose (gone : List Path) (time : Timestamp) (t : WatchTable) :
    t.SameScope (gone.foldl (lose time) t) := by
  induction gone generalizing t with
  | nil => exact ⟨rfl, rfl⟩
  | cons p rest ih => exact ih (t.lose time p)

theorem sameScope_apply (t : WatchTable) (time : Timestamp) (p : Path)
    (current : Option Signature) :
    t.SameScope (t.apply time p current).2 := by
  unfold apply
  split
  · exact ⟨rfl, rfl⟩
  · split
    · exact ⟨rfl, rfl⟩
    · exact ⟨rfl, rfl⟩
    · exact ⟨rfl, rfl⟩
    · split <;> exact ⟨rfl, rfl⟩
    · split <;> exact ⟨rfl, rfl⟩
    · exact sameScope_foldl_lose _ time t

theorem sameScope_discover (t : WatchTable) (time : Timestamp) (entries : List WatchEntry) :
    t.SameScope (t.discover time entries).2 := by
  induction entries generalizing t with
  | nil => exact ⟨rfl, rfl⟩
  | cons e rest ih =>
    rw [discover]
    split
    · exact ih t
    · exact ih ((t.track e.path e.signature).count time)

/-- A look changes what is tracked, and neither the directories nor the named files. -/
theorem sameScope_settle (t : WatchTable) (disk : FileTree) (time : Timestamp) (p : Path) :
    t.SameScope (t.settle disk time p).2 := by
  unfold settle
  split
  · split
    · exact ⟨rfl, rfl⟩
    · exact sameScope_discover ..
  · exact sameScope_apply ..
  · exact sameScope_apply ..

/-- What is seen to be a file at a path is tracked so, and nothing else is touched. -/
theorem find?_apply_some (t : WatchTable) (time : Timestamp) (q : Path) (s : Signature) (p : Path) :
    (t.apply time q (some s)).2.tracked.find? p = t.tracked.find? p ∨
      q.components = p.components ∧
        (t.apply time q (some s)).2.tracked.find? p = some ⟨q, some s⟩ := by
  have htrack : ((t.track q (some s)).count time).tracked.find? p = t.tracked.find? p ∨
      q.components = p.components ∧
        ((t.track q (some s)).count time).tracked.find? p = some ⟨q, some s⟩ := by
    by_cases hp : p.components = q.components
    · exact .inr ⟨hp.symm, (PathTable.find?_put ..).trans (if_pos hp)⟩
    · exact .inl ((PathTable.find?_put ..).trans (if_neg hp))
  unfold apply
  split
  · exact .inl rfl
  · cases (t.tracked.find? q).map WatchEntry.signature with
    | none =>
      dsimp only
      split
      · exact htrack
      · exact .inl rfl
    | some previous =>
      cases previous with
      | none => exact htrack
      | some previous =>
        dsimp only
        split
        · exact .inl rfl
        · exact htrack

/-- Where nothing is seen, nothing is tracked after that at the path or, if it was not tracked
itself, below it; nothing else is touched. -/
theorem find?_apply_none (t : WatchTable) (time : Timestamp) (q p : Path) :
    (t.apply time q none).2.tracked.find? p = t.tracked.find? p ∨
      q.components <+: p.components ∧ (t.apply time q none).2.tracked.find? p = none := by
  unfold apply
  split
  · exact .inl rfl
  · cases (t.tracked.find? q).map WatchEntry.signature with
    | none =>
      dsimp only
      rw [PathTable.find?, (foldl_lose_eq _ time t).2, Table.get?_foldl_erase]
      split
      · rename_i hmem
        obtain ⟨file, hfile, hsame⟩ := List.mem_map.mp hmem
        have hbelow := (List.mem_filter.mp hfile).2
        rw [Path.startsWith, List.isPrefixOf_iff_prefix, hsame] at hbelow
        exact .inr ⟨hbelow, rfl⟩
      · exact .inl rfl
    | some previous =>
      cases previous with
      | none => exact .inl rfl
      | some previous =>
        by_cases hp : p.components = q.components
        · exact .inr ⟨hp ▸ List.prefix_rfl, (PathTable.find?_remove ..).trans (if_pos hp)⟩
        · exact .inl ((PathTable.find?_remove ..).trans (if_neg hp))

/-- A tracked path takes over what is seen there. -/
theorem find?_apply_self (hsound : t.Sound) (hexcluded : t.excluded.has q = false)
    (htracked : t.tracked.has q = true) (time : Timestamp) (current : Option Signature) :
    ((t.apply time q current).2.tracked.find? q).map WatchEntry.signature = current.map some := by
  rw [PathTable.has_eq_isSome_find?, Option.isSome_iff_exists] at htracked
  obtain ⟨e, he⟩ := htracked
  obtain ⟨previous, hprevious⟩ := Option.isSome_iff_exists.mp (hsound.seen q e he)
  unfold apply
  rw [hexcluded, if_neg Bool.false_ne_true, he, Option.map_some, hprevious]
  cases current with
  | none =>
    show ((t.tracked.remove q).find? q).map _ = _
    rw [PathTable.find?_remove, if_pos rfl]
    rfl
  | some s =>
    dsimp only
    split
    · rename_i hsame
      rw [he, Option.map_some, hprevious, hsame]
      rfl
    · show ((t.tracked.put q ⟨q, some s⟩).find? q).map _ = _
      rw [PathTable.find?_put, if_pos rfl]
      rfl

/-- A named path takes over what is seen there, too. -/
theorem find?_apply_named (hexcluded : t.excluded.has q = false)
    (htracked : t.tracked.has q = false) (hnamed : t.explicit.has q = true) (time : Timestamp)
    (current : Option Signature) :
    ((t.apply time q current).2.tracked.find? q).map WatchEntry.signature = current.map some := by
  rw [PathTable.has_eq_isSome_find?, Option.isSome_eq_false_iff, Option.isNone_iff_eq_none]
    at htracked
  cases current with
  | none =>
    rcases find?_apply_none t time q q with hsame | ⟨-, hnone⟩
    · rw [hsame, htracked]
      rfl
    · rw [hnone]
      rfl
  | some s =>
    have heligible : t.isEligible q = true := by
      rw [isEligible, hexcluded, hnamed]
      rfl
    unfold apply
    rw [hexcluded, if_neg Bool.false_ne_true, htracked, Option.map_none]
    dsimp only
    rw [if_pos heligible]
    show ((t.tracked.put q ⟨q, some s⟩).find? q).map _ = _
    rw [PathTable.find?_put, if_pos rfl]
    rfl

/-- **A look changes nothing at a path, or makes the table agree there.**  A look at the path
itself does so if the path was tracked or named. -/
theorem find?_settle (hsound : t.Sound) (hp : p.isDirectoryOnly = false)
    (hexcluded : t.excluded.has p = false) (hfile : disk.look p ≠ .directory) (hq : q.bytes ≠ [])
    (hspelled : q.components = p.components → q.isDirectoryOnly = false) :
    ((t.settle disk time q).2.tracked.find? p = t.tracked.find? p ∨
        (t.settle disk time q).2.Agrees p (disk.look p)) ∧
      (q.components = p.components → t.tracked.has p = true ∨ t.explicit.has p = true →
        (t.settle disk time q).2.Agrees p (disk.look p)) := by
  have hlook : q.components = p.components → disk.look q = disk.look p := fun hsame =>
    disk.look_congr hsame (hspelled hsame) hp
  have hself : q.components = p.components → t.tracked.has p = true ∨ t.explicit.has p = true →
      ∀ current, ((t.apply time q current).2.tracked.find? q).map WatchEntry.signature =
        current.map some := by
    intro hsame hheld current
    have hexcluded' : t.excluded.has q = false := hexcluded ▸ PathTable.has_congr _ hsame
    rw [← PathTable.has_congr _ hsame, ← PathTable.has_congr _ hsame] at hheld
    cases htracked : t.tracked.has q with
    | true => exact find?_apply_self hsound hexcluded' htracked time current
    | false =>
      rw [htracked] at hheld
      exact find?_apply_named hexcluded' htracked
        (hheld.resolve_left Bool.false_ne_true) time current
  unfold settle
  cases hsight : disk.look q with
  | directory =>
    refine ⟨?_, fun hsame => absurd ((hlook hsame).symm.trans hsight) hfile⟩
    dsimp only
    cases t.rootFor q with
    | none => exact .inl rfl
    | some root =>
      refine (find?_discover t time _ p).2.imp_right ?_
      rintro ⟨e, he, hsame, hfound⟩
      obtain ⟨s, hs, hseen⟩ := FileTree.look_of_mem_scan he
      rw [Agrees, hfound, Option.map_some, hs,
        disk.look_congr hsame.symm hp (FileTree.isDirectoryOnly_of_look hseen), hseen]
      rfl
  | file s =>
    have hseen : q.components = p.components → disk.look p = .file s := fun hsame =>
      (hlook hsame).symm.trans hsight
    refine ⟨(find?_apply_some t time q s p).imp_right ?_, ?_⟩
    · rintro ⟨hsame, hfound⟩
      rw [Agrees, hfound, hseen hsame]
      rfl
    · intro hsame hheld
      rw [Agrees, hseen hsame, ← PathTable.find?_congr _ hsame]
      exact hself hsame hheld (some s)
  | missing =>
    refine ⟨(find?_apply_none t time q p).imp_right ?_, ?_⟩
    · rintro ⟨hbegins, hfound⟩
      have hgone : disk.look p = .missing := by
        cases hp' : disk.look p with
        | missing => rfl
        | directory => exact absurd hp' hfile
        | file s =>
          -- the path would lie in a directory
          have hdir : disk.look q = .directory := by
            refine FileTree.look_of_isPrefix hq hbegins ?_ hp'
            intro hsame
            rw [← hlook hsame, hsight] at hp'
            cases hp'
          rw [hsight] at hdir
          cases hdir
      rw [Agrees, hfound, hgone]
      rfl
    · intro hsame hheld
      rw [Agrees, ← hlook hsame, hsight, ← PathTable.find?_congr _ hsame]
      exact hself hsame hheld none

/-- A file that is added is tracked as it is seen. -/
theorem find?_withFile (t : WatchTable) (hp : p.isDirectoryOnly = false) :
    (Watcher.withFile t q (disk.look q)).tracked.find? p = t.tracked.find? p ∨
      (Watcher.withFile t q (disk.look q)).Agrees p (disk.look p) := by
  cases hsight : disk.look q with
  | missing => exact .inl rfl
  | directory => exact .inl rfl
  | file s =>
    have hfind : (Watcher.withFile t q (.file s)).tracked.find? p =
        if p.components = q.components then some ⟨q, some s⟩ else t.tracked.find? p :=
      PathTable.find?_put ..
    by_cases hsame : p.components = q.components
    · rw [if_pos hsame] at hfind
      rw [Agrees, hfind, disk.look_congr hsame hp (FileTree.isDirectoryOnly_of_look hsight), hsight]
      exact .inr rfl
    · rw [if_neg hsame] at hfind
      exact .inl hfind

end WatchTable

/-! ## 2. Paths that are looked at -/

/-- Whether an action notifies only about paths that satisfy a condition. -/
def WatchAction.Notifies (Q : Path → Prop) : WatchAction → Prop
  | .notify _ paths _ => ∀ q ∈ paths, Q q
  | _ => True

namespace WatchState

variable {s s' : WatchState} {a : WatchAction} {log : List Notice} {p : Path} {sight : Sight}

/-- What holds of every state: the paths that wait or are to be looked at were notified about,
and an idle watcher tracks nothing and has nothing to look at. -/
structure Orderly (Q : Path → Prop) (s : WatchState) : Prop where
  sound : s.watcher.table.Sound
  pending : ∀ d, s.watcher.pending = some d → d.Holds Q
  due : ∀ q ∈ s.due, Q q
  idle : s.watcher.isWatching = false → s.due = [] ∧ ∀ q, s.watcher.table.tracked.has q = false

theorem Step.orderly {Q : Path → Prop} (hstep : s.Step a s' log) (ha : a.Notifies Q)
    (h : s.Orderly Q) : s'.Orderly Q := by
  have hsound := hstep.sound h.sound
  have hopen : ∀ {w : Watcher} {P : Prop}, w.isWatching = true → w.isWatching = false → P := by
    intro w P hwatching hidle
    rw [hwatching] at hidle
    cases hidle
  cases hstep with
  | stays _ _ => exact h
  | opens hwatch _ =>
    have hpending := (Watcher.watch_eq_ok hwatch).2.2.1
    refine ⟨hsound, fun d hd => ?_, h.due, hopen ?_⟩
    · rw [← Option.some.inj (hpending.symm.trans hd)]
      exact .new _
    · rw [Watcher.isWatching, hpending]
      rfl
  | closes hdue =>
    refine ⟨hsound, fun d hd => ?_, h.due, fun _ => ⟨hdue, fun _ => rfl⟩⟩
    cases hd
  | adds hwatching _ hpending _ =>
    refine ⟨hsound, fun d hd => h.pending d (hpending.symm.trans hd), h.due, hopen ?_⟩
    rw [Watcher.isWatching, hpending]
    exact hwatching
  | drops hwatching => exact ⟨hsound, h.pending, h.due, hopen hwatching⟩
  | notes hdue =>
    rcases Watcher.notify_cases s.watcher _ _ _ with ⟨hsame, -⟩ | ⟨d, k, hpending, -, hnotify⟩
    · rw [hsame]
      exact h
    · rw [hnotify] at hsound ⊢
      refine ⟨hsound, fun d' hd' => ?_, h.due, hopen rfl⟩
      rw [← Option.some.inj hd']
      exact (h.pending d hpending).foldl_record (fun q hq => ha q (List.mem_filter.mp hq).1) k _
  | drains hdue hpending =>
    obtain ⟨hdrained, hleft⟩ := (h.pending _ hpending).drain _
    refine ⟨hsound, fun d hd => ?_, hdrained, hopen rfl⟩
    rw [← Option.some.inj hd]
    exact hleft
  | settles hdue =>
    refine ⟨hsound, h.pending, fun q hq => h.due q (hdue ▸ List.mem_cons_of_mem _ hq), ?_⟩
    intro hidle
    rw [(h.idle hidle).1] at hdue
    cases hdue
  | edits => exact ⟨hsound, h.pending, h.due, h.idle⟩

theorem orderly_run {Q : Path → Prop} {as : List WatchAction} (hrun : s.run? as = some (s', log))
    (has : ∀ a ∈ as, a.Notifies Q) (h : s.Orderly Q) : s'.Orderly Q := by
  induction as generalizing s log with
  | nil =>
    obtain ⟨rfl, -⟩ := Prod.mk.inj (Option.some.inj hrun)
    exact h
  | cons a as ih =>
    obtain ⟨mid, first, others, hact, hrest, -⟩ := run?_cons_eq_some_iff.mp hrun
    exact ih hrest (fun b hb => has b (List.mem_cons_of_mem _ hb))
      ((step_of_act? hact).orderly (has a (List.mem_cons_self ..)) h)

end WatchState

/-! ## 3. One path -/

/-- Whether a path may be notified about while a file is watched: it is not empty, and if it is
a spelling of the file's path then one that may lead to a file. -/
def Path.IsFileSpelling (p q : Path) : Prop :=
  q.bytes ≠ [] ∧ (q.components = p.components → q.isDirectoryOnly = false)

namespace WatchAction

/-- Whether an action neither ends watching nor changes what is seen at a path. -/
def Spares (p : Path) (sight : Sight) : WatchAction → Prop
  | .close => False
  | .edit disk => disk.look p = sight
  | _ => True

/-- Whether an action is a notification about a path that suggests a change. -/
def Names (p : Path) : WatchAction → Prop
  | .notify kind paths _ => kind.change?.isSome = true ∧ ∃ q ∈ paths, q.components = p.components
  | _ => False

end WatchAction

namespace WatchState

variable {s s' : WatchState} {a : WatchAction} {log : List Notice} {p : Path} {sight : Sight}

/-- The kind of change that waits at a path. -/
def pendingKind? (s : WatchState) (p : Path) : Option ChangeKind :=
  s.watcher.pending.bind fun d => d.kindOf? p

/-- Whether a path is still to be looked at. -/
def Waits (s : WatchState) (p : Path) : Prop :=
  (s.pendingKind? p).isSome = true ∨ ∃ q ∈ s.due, q.components = p.components

/-- Whether a file is minded at which something is seen: its path is tracked or named, unless the
table agrees anyway, and not excluded. -/
structure Minds (s : WatchState) (p : Path) (sight : Sight) : Prop where
  watching : s.watcher.isWatching = true
  seen : s.disk.look p = sight
  included : s.watcher.table.excluded.has p = false
  held : s.watcher.table.tracked.has p = true ∨ s.watcher.table.Agrees p sight ∨
    s.watcher.table.explicit.has p = true

theorem Minds.agrees_or_held (h : s.Minds p sight) : s.watcher.table.Agrees p sight ∨
    (s.watcher.table.tracked.has p = true ∨ s.watcher.table.explicit.has p = true) := by
  rcases h.held with htracked | hagrees | hnamed
  · exact .inr (.inl htracked)
  · exact .inl hagrees
  · exact .inr (.inr hnamed)

/-- What a notification does to a path that is minded: if it names the path, the path waits
after it or the table agrees, unless a removal has met an addition. -/
theorem waits_notify {kind : NotificationKind} {paths : List Path} {now : UInt64}
    (hminds : s.Minds p sight) (hnames : (WatchAction.notify kind paths now).Names p)
    (hcancel : s.pendingKind? p = some .add → kind ≠ .remove) :
    s.watcher.table.Agrees p sight ∨
      Waits { s with watcher := s.watcher.notify kind paths now } p := by
  obtain ⟨hkind, q, hq, hsame⟩ := hnames
  refine hminds.agrees_or_held.imp_right fun hheld => .inl ?_
  rcases s.watcher.notify_cases kind paths now with ⟨-, hnone | hnone⟩ | ⟨d, k, hd, hk, hnotify⟩
  · have hwatching := hminds.watching
    rw [Watcher.isWatching, hnone] at hwatching
    cases hwatching
  · rw [hnone] at hkind
    cases hkind
  · have hrelevant : s.watcher.table.isRelevant q = true := by
      rw [WatchTable.isRelevant, PathTable.has_congr _ hsame, hminds.included,
        PathTable.has_congr _ hsame, PathTable.has_congr _ hsame, Bool.or_eq_true_iff.mpr hheld]
      rfl
    have hcancel' : d.kindOf? p = some .add → k ≠ .remove := by
      intro hadd
      have hne := hcancel (by rw [pendingKind?, hd, Option.bind_some, hadd])
      rintro rfl
      cases kind <;> simp [NotificationKind.change?] at hk hne
    rw [pendingKind?, hnotify, Option.bind_some, ← Debouncer.isPending_eq]
    exact Debouncer.isPending_foldl_record hcancel'
      (.inr ⟨q, List.mem_filter.mpr ⟨hq, hrelevant⟩, hsame⟩)

theorem pendingKind?_notify {kind : NotificationKind} {paths : List Path} {now : UInt64}
    (hnames : ¬ (WatchAction.notify kind paths now).Names p) :
    pendingKind? { s with watcher := s.watcher.notify kind paths now } p = s.pendingKind? p := by
  rcases s.watcher.notify_cases kind paths now with ⟨hsame, -⟩ | ⟨d, k, hd, hk, hnotify⟩
  · rw [pendingKind?, hsame]
    rfl
  · rw [pendingKind?, hnotify, Option.bind_some, pendingKind?, hd, Option.bind_some]
    refine Debouncer.kindOf?_foldl_record fun q hq hsame =>
      hnames ⟨?_, q, (List.mem_filter.mp hq).1, hsame⟩
    rw [hk]
    rfl

/-- **A path stays admitted and named**, unless a call drops it or watching ends. -/
theorem Step.admits (hstep : s.Step a s' log) (hwatching : s.watcher.isWatching = true)
    (hclose : a ≠ .close) (hkept : ∀ q, .dropped q ∈ log → q.components ≠ p.components) :
    (s.watcher.table.excluded.has p = false → s'.watcher.table.excluded.has p = false) ∧
      (s.watcher.table.explicit.has p = true → s'.watcher.table.explicit.has p = true) := by
  cases hstep with
  | stays _ _ => exact ⟨id, id⟩
  | opens hwatch _ =>
    rw [Watcher.isWatching, (Watcher.watch_eq_ok hwatch).1] at hwatching
    cases hwatching
  | closes _ => exact absurd rfl hclose
  | adds _ htable _ _ =>
    dsimp only
    rw [htable, Watcher.excluded_withFile, Watcher.explicit_withFile, PathSet.has_add]
    refine ⟨fun hincluded => ?_, .inr⟩
    rw [PathTable.has_remove, hincluded, Bool.and_false]
  | drops _ =>
    have hne := Ne.symm (hkept _ (List.mem_singleton.mpr rfl))
    refine ⟨fun hincluded => ?_, fun hnamed => ?_⟩
    · show (PathSet.add _ _).has p = false
      rw [PathSet.add, PathTable.has_put, hincluded]
      simp [hne]
    · show (PathTable.remove _ _).has p = true
      rw [PathTable.has_remove, hnamed]
      simp [hne]
  | notes _ =>
    rw [table_notify]
    exact ⟨id, id⟩
  | drains _ _ => exact ⟨id, id⟩
  | settles _ =>
    dsimp only
    rw [WatchTable.excluded_settle, (WatchTable.sameScope_settle ..).2]
    exact ⟨id, id⟩
  | edits => exact ⟨id, id⟩

/-- Whether an action is the notification of a removal that is merged away at a path: an addition
waits there, and after the notification nothing does. -/
def Cancels (s : WatchState) (p : Path) (a : WatchAction) : Prop :=
  ∃ paths now, a = .notify .remove paths now ∧ s.pendingKind? p = some .add ∧
    pendingKind? { s with watcher := s.watcher.notify .remove paths now } p = none

section Step

variable (hstep : s.Step a s' log) (horderly : s.Orderly p.IsFileSpelling)
  (hminds : s.Minds p sight) (hp : p.isDirectoryOnly = false) (hfile : sight ≠ .directory)
  (ha : a.Spares p sight) (hkept : ∀ q, .dropped q ∈ log → q.components ≠ p.components)

include hstep horderly hminds hp hfile ha hkept

/-- **A step changes nothing at a path, or makes the table agree there.** -/
theorem Step.find? :
    s'.disk.look p = sight ∧
      (s'.watcher.table.tracked.find? p = s.watcher.table.tracked.find? p ∨
        s'.watcher.table.Agrees p sight) := by
  obtain ⟨hwatching, hseen, hincluded, -⟩ := hminds
  cases hstep with
  | stays _ _ => exact ⟨hseen, .inl rfl⟩
  | opens hwatch _ =>
    rw [Watcher.isWatching, (Watcher.watch_eq_ok hwatch).1] at hwatching
    cases hwatching
  | closes _ => exact ha.elim
  | adds _ htable _ _ =>
    refine ⟨hseen, ?_⟩
    dsimp only
    rw [htable, ← hseen]
    exact WatchTable.find?_withFile _ hp
  | drops _ =>
    have hne := hkept _ (List.mem_singleton.mpr rfl)
    exact ⟨hseen, .inl ((PathTable.find?_remove ..).trans (if_neg (Ne.symm hne)))⟩
  | notes _ =>
    rw [table_notify]
    exact ⟨hseen, .inl rfl⟩
  | drains _ _ => exact ⟨hseen, .inl rfl⟩
  | settles hdue =>
    have hq := horderly.due _ (hdue ▸ List.mem_cons_self ..)
    refine ⟨hseen, ?_⟩
    rw [← hseen] at hfile ⊢
    exact (WatchTable.find?_settle horderly.sound hp hincluded hfile hq.1 hq.2).1
  | edits => exact ⟨ha, .inl rfl⟩

theorem Step.agrees (hagrees : s.watcher.table.Agrees p sight) :
    s'.watcher.table.Agrees p sight := by
  rcases (hstep.find? horderly hminds hp hfile ha hkept).2 with hsame | hagrees'
  · rw [WatchTable.Agrees, hsame]
    exact hagrees
  · exact hagrees'

theorem Step.minds : s'.Minds p sight := by
  obtain ⟨hseen, hfind⟩ := hstep.find? horderly hminds hp hfile ha hkept
  have hclose : a ≠ .close := by
    rintro rfl
    exact ha
  obtain ⟨hincluded, hnamed⟩ := hstep.admits hminds.watching hclose hkept
  refine ⟨hstep.isWatching hminds.watching hclose, hseen, hincluded hminds.included, ?_⟩
  rcases hfind with hsame | hagrees
  · rw [PathTable.has_eq_isSome_find?, WatchTable.Agrees, hsame, ← PathTable.has_eq_isSome_find?]
    exact hminds.held.imp_right (Or.imp_right hnamed)
  · exact .inr (.inl hagrees)

/-- **A path that waits goes on waiting until the table agrees**, whatever happens but a
notification about it. -/
theorem Step.waits (hnames : ¬ a.Names p) (hwaits : s.Waits p) :
    s'.watcher.table.Agrees p sight ∨ s'.Waits p := by
  have hagrees := hstep.agrees horderly hminds hp hfile ha hkept
  cases hstep with
  | stays _ _ => exact .inr hwaits
  | opens hwatch _ =>
    have hwatching := hminds.watching
    rw [Watcher.isWatching, (Watcher.watch_eq_ok hwatch).1] at hwatching
    cases hwatching
  | closes _ => exact ha.elim
  | adds _ _ hpending _ =>
    refine .inr ?_
    rwa [Waits, pendingKind?, hpending]
  | drops _ => exact .inr hwaits
  | notes _ =>
    refine .inr ?_
    rwa [Waits, pendingKind?_notify hnames]
  | drains hdue hpending =>
    rename_i now d
    refine .inr ?_
    rcases hwaits with hwaits | ⟨q, hq, -⟩
    · rw [pendingKind?, hpending, Option.bind_some, ← Debouncer.isPending_eq] at hwaits
      refine (Debouncer.isPending_drain (horderly.pending d hpending) hwaits now).imp ?_ id
      intro hleft
      rw [Debouncer.isPending_eq] at hleft
      exact hleft
    · rw [hdue] at hq
      cases hq
  | settles hdue =>
    rcases hwaits with hwaits | ⟨q, hq, hsame⟩
    · exact .inr (.inl hwaits)
    · rw [hdue] at hq
      rcases List.mem_cons.mp hq with rfl | hq
      · have hq := horderly.due _ (hdue ▸ List.mem_cons_self ..)
        rcases hminds.agrees_or_held with hnow | hheld
        · exact .inl (hagrees hnow)
        · rw [← hminds.seen] at hfile ⊢
          exact .inl
            ((WatchTable.find?_settle horderly.sound hp hminds.included hfile hq.1 hq.2).2 hsame
            hheld)
      · exact .inr (.inr ⟨q, hq, hsame⟩)
  | edits => exact .inr hwaits

/-- A path that a step names waits after it or the table agrees there, unless a removal was
merged away. -/
theorem Step.named (hnames : a.Names p) :
    (s'.watcher.table.Agrees p sight ∨ s'.Waits p) ∨ s.Cancels p a := by
  have hagrees := hstep.agrees horderly hminds hp hfile ha hkept
  cases a with
  | notify kind paths now =>
    cases hstep with
    | stays hstays _ => cases hstays
    | notes _ =>
      by_cases hcancel : s.pendingKind? p = some .add ∧ kind = .remove
      · obtain ⟨hadd, rfl⟩ := hcancel
        cases hkind : pendingKind? { s with watcher := s.watcher.notify .remove paths now } p with
        | none => exact .inr ⟨paths, now, rfl, hadd, hkind⟩
        | some kind =>
          refine .inl (.inr (.inl ?_))
          rw [hkind]
          rfl
      · rcases waits_notify hminds hnames
          (fun hadd hkind => hcancel ⟨hadd, hkind⟩) with hnow | hwaits
        · exact .inl (.inl (hagrees hnow))
        · exact .inl (.inr hwaits)
  | _ => exact hnames.elim

/-- **A path that was ever named waits or the table agrees there**, and a step keeps that up
unless it merges a removal away. -/
theorem Step.heeds (h : (s.watcher.table.Agrees p sight ∨ s.Waits p) ∨ a.Names p) :
    (s'.watcher.table.Agrees p sight ∨ s'.Waits p) ∨ s.Cancels p a := by
  by_cases hnames : a.Names p
  · exact hstep.named horderly hminds hp hfile ha hkept hnames
  · refine .inl ?_
    rcases h.resolve_right hnames with hnow | hwaits
    · exact .inl (hstep.agrees horderly hminds hp hfile ha hkept hnow)
    · exact hstep.waits horderly hminds hp hfile ha hkept hnames hwaits

end Step

/-! ## 4. Runs -/

/-- Whether the last notification about a path was of a removal and was merged away: an
addition waited at the path, and after the notification nothing waited there. -/
def MergedAway (s : WatchState) (p : Path) (as : List WatchAction) : Prop :=
  ∃ earlier paths now later mid log, as = earlier ++ .notify .remove paths now :: later ∧
    s.run? earlier = some (mid, log) ∧ mid.pendingKind? p = some .add ∧
    pendingKind? { mid with watcher := mid.watcher.notify .remove paths now } p = none ∧
    ∀ a ∈ later, ¬ a.Names p

theorem MergedAway.cons {mid : WatchState} {first : List Notice} {rest : List WatchAction}
    (hact : s.act? a = some (mid, first)) (h : mid.MergedAway p rest) :
    s.MergedAway p (a :: rest) := by
  obtain ⟨earlier, paths, now, later, last, log, rfl, hrun, hmerged⟩ := h
  exact ⟨a :: earlier, paths, now, later, last, first ++ log, rfl,
    run?_cons_eq_some_iff.mpr ⟨mid, first, log, hact, hrun, rfl⟩, hmerged⟩

theorem Cancels.mergedAway {rest : List WatchAction} (h : s.Cancels p a)
    (hrest : ∀ b ∈ rest, ¬ b.Names p) : s.MergedAway p (a :: rest) := by
  obtain ⟨paths, now, rfl, hadd, hnone⟩ := h
  exact ⟨[], paths, now, rest, s, [], rfl, rfl, hadd, hnone, hrest⟩

/-- Whether allowed steps that drop nothing at a path keep up an invariant, and under it reach a
goal: where the goal holds, the path waits or it is named, there the goal holds or the path waits
after the step, unless a removal is merged away. -/
structure Pursues (p : Path) (Allowed : WatchAction → Prop) (Invariant Goal : WatchState → Prop) :
    Prop where
  keeps : ∀ {s s' : WatchState} {a : WatchAction} {log : List Notice}, s.Step a s' log → Allowed a →
    (∀ q, .dropped q ∈ log → q.components ≠ p.components) → Invariant s → Invariant s'
  heeds : ∀ {s s' : WatchState} {a : WatchAction} {log : List Notice}, s.Step a s' log → Allowed a →
    (∀ q, .dropped q ∈ log → q.components ≠ p.components) → Invariant s →
    (Goal s ∨ s.Waits p) ∨ a.Names p → (Goal s' ∨ s'.Waits p) ∨ s.Cancels p a

namespace Pursues

variable {Allowed : WatchAction → Prop} {Invariant Goal : WatchState → Prop} {as : List WatchAction}

/-- **Along a run the goal is reached once the path has been named, or the path waits**, unless
the last word about it was merged away. -/
theorem run (h : Pursues p Allowed Invariant Goal) (hrun : s.run? as = some (s', log))
    (has : ∀ a ∈ as, Allowed a) (hkept : ∀ q, .dropped q ∈ log → q.components ≠ p.components)
    (hs : Invariant s) :
    Invariant s' ∧ ((Goal s ∨ s.Waits p) ∨ (∃ a ∈ as, a.Names p) →
      (Goal s' ∨ s'.Waits p) ∨ s.MergedAway p as) := by
  induction as generalizing s log with
  | nil =>
    obtain ⟨rfl, -⟩ := Prod.mk.inj (Option.some.inj hrun)
    refine ⟨hs, fun hnamed => .inl (hnamed.resolve_right ?_)⟩
    rintro ⟨a, ha, -⟩
    cases ha
  | cons a rest ih =>
    obtain ⟨mid, first, others, hact, hrest, rfl⟩ := run?_cons_eq_some_iff.mp hrun
    have hstep := step_of_act? hact
    have ha := has a (List.mem_cons_self ..)
    have hfirst : ∀ q, .dropped q ∈ first → q.components ≠ p.components := fun q hq =>
      hkept q (List.mem_append_left _ hq)
    obtain ⟨hs', hlater⟩ := ih hrest (fun b hb => has b (List.mem_cons_of_mem _ hb))
      (fun q hq => hkept q (List.mem_append_right _ hq)) (h.keeps hstep ha hfirst hs)
    have hcarry : (Goal mid ∨ mid.Waits p) ∨ (∃ b ∈ rest, b.Names p) →
        (Goal s' ∨ s'.Waits p) ∨ s.MergedAway p (a :: rest) := fun hmid =>
      (hlater hmid).imp_right (.cons hact)
    refine ⟨hs', fun hnamed => ?_⟩
    by_cases hagain : ∃ b ∈ rest, b.Names p
    · exact hcarry (.inr hagain)
    · have hnow : (Goal s ∨ s.Waits p) ∨ a.Names p := by
        refine hnamed.imp_right ?_
        rintro ⟨b, hb, hb'⟩
        rcases List.mem_cons.mp hb with rfl | hb
        · exact hb'
        · exact absurd ⟨b, hb, hb'⟩ hagain
      rcases h.heeds hstep ha hfirst hs hnow with hmid | hcancels
      · exact hcarry (.inl hmid)
      · exact .inr (hcancels.mergedAway fun b hb hb' => hagain ⟨b, hb, hb'⟩)

end Pursues

section Run

variable {as : List WatchAction} (hrun : s.run? as = some (s', log))
  (horderly : s.Orderly p.IsFileSpelling) (hminds : s.Minds p sight)
  (hp : p.isDirectoryOnly = false) (hfile : sight ≠ .directory)
  (has : ∀ a ∈ as, a.Spares p sight ∧ a.Notifies p.IsFileSpelling)
  (hkept : ∀ q, .dropped q ∈ log → q.components ≠ p.components)

/-- A watcher that minds a file pursues what is seen of it. -/
theorem pursues_agrees (hp : p.isDirectoryOnly = false) (hfile : sight ≠ .directory) :
    Pursues p (fun a => a.Spares p sight ∧ a.Notifies p.IsFileSpelling)
      (fun s => s.Orderly p.IsFileSpelling ∧ s.Minds p sight)
      (fun s => s.watcher.table.Agrees p sight) where
  keeps hstep ha hkept hs := ⟨hstep.orderly ha.2 hs.1, hstep.minds hs.1 hs.2 hp hfile ha.1 hkept⟩
  heeds hstep ha hkept hs := hstep.heeds hs.1 hs.2 hp hfile ha.1 hkept

include hrun horderly hminds hp hfile has hkept

theorem minds_of_run : s'.Minds p sight :=
  ((pursues_agrees hp hfile).run hrun has hkept ⟨horderly, hminds⟩).1.2

/-- **Once a path has been named, the table agrees there or it waits**, unless the last word
about it was merged away. -/
theorem agrees_or_waits_of_run
    (hnamed : (s.watcher.table.Agrees p sight ∨ s.Waits p) ∨ ∃ a ∈ as, a.Names p) :
    (s'.watcher.table.Agrees p sight ∨ s'.Waits p) ∨ s.MergedAway p as :=
  ((pursues_agrees hp hfile).run hrun has hkept ⟨horderly, hminds⟩).2 hnamed

end Run

end WatchState

/-! ## 5. Removals are reported -/

namespace Notice

/-- Whether a notice says that a path is no longer tracked. -/
def Removes (p : Path) : Notice → Prop
  | .event (.change c) => c.kind = .remove ∧ c.path.components = p.components
  | .dropped q => q.components = p.components
  | _ => False

theorem has_take {set : PathSet} {n : Notice} {p : Path} (hp : set.has p = true)
    (hn : ¬ n.Removes p) : (n.take set).has p = true := by
  have hadd : ∀ q, (set.add q).has p = true := by
    intro q
    rw [PathSet.add, PathTable.has_put, hp, Bool.or_true]
  have hremove : ∀ q : Path, q.components ≠ p.components → (set.remove q).has p = true := by
    intro q hq
    rw [PathTable.has_remove, hp]
    simp [Ne.symm hq]
  cases n with
  | event e =>
    cases e with
    | ready files => exact hp
    | error message paths => exact hp
    | change c =>
      obtain ⟨path, kind, time⟩ := c
      cases kind with
      | add => exact hadd path
      | change => exact hp
      | remove => exact hremove path fun hsame => hn ⟨rfl, hsame⟩
  | added q => exact hadd q
  | dropped q => exact hremove q hn

/-- What leaves the set was said to be no longer tracked. -/
theorem exists_of_replay {set : PathSet} {log : List Notice} {p : Path} (hbefore : set.has p = true)
    (hafter : (replay set log).has p = false) : ∃ n ∈ log, n.Removes p := by
  induction log generalizing set with
  | nil =>
    rw [replay, List.foldl_nil, hbefore] at hafter
    cases hafter
  | cons n rest ih =>
    by_cases hn : n.Removes p
    · exact ⟨n, List.mem_cons_self .., hn⟩
    · obtain ⟨m, hm, hremoves⟩ := ih (has_take hbefore hn) hafter
      exact ⟨m, List.mem_cons_of_mem _ hm, hremoves⟩

end Notice

namespace WatchState

theorem orderly_new {options : WatcherOptions} {w : Watcher} (hnew : Watcher.new options = .ok w)
    (disk : FileTree) (Q : Path → Prop) : Orderly Q ⟨w, disk, []⟩ := by
  unfold Watcher.new at hnew
  split at hnew
  · obtain rfl := Except.ok.inj hnew
    exact ⟨⟨.empty, fun p e he => nomatch he⟩, fun d hd => (nomatch hd), fun q hq => (nomatch hq),
      fun _ => ⟨rfl, fun _ => rfl⟩⟩
  · cases hnew

/-- **A settled change is seen, unless the last notification about it was merged away.**  A file
is tracked and not excluded after it has changed on the disk for the last time.  Then a
notification names it, and others may come before and after, as may looks and calls that do not
drop the file.  When nothing waits at its path, the table agrees with the disk there. -/
theorem settled_change_is_seen {options : WatcherOptions} {w : Watcher}
    (hnew : Watcher.new options = .ok w) {disk : FileTree} {before after : List WatchAction}
    {s₁ s : WatchState} {log₁ log : List Notice}
    (hbefore : run? ⟨w, disk, []⟩ before = some (s₁, log₁)) (hafter : s₁.run? after = some (s, log))
    {p : Path} (hp : p.isDirectoryOnly = false) (htracked : s₁.watcher.table.tracked.has p = true)
    (hincluded : s₁.watcher.table.excluded.has p = false) (hfile : s₁.disk.look p ≠ .directory)
    (hspelled : ∀ a ∈ before ++ after, a.Notifies p.IsFileSpelling)
    (hspares : ∀ a ∈ after, a.Spares p (s₁.disk.look p))
    (hkept : ∀ q, .dropped q ∈ log → q.components ≠ p.components)
    (hnamed : ∃ a ∈ after, a.Names p) (hquiet : ¬ s.Waits p) :
    s₁.MergedAway p after ∨
      (∀ signature, s.disk.look p = .file signature →
        (s.watcher.table.tracked.find? p).map WatchEntry.signature = some (some signature)) ∧
      (s.disk.look p = .missing → s.watcher.table.tracked.has p = false ∧
        ∃ c, .event (.change c) ∈ log ∧ c.kind = .remove ∧ c.path.components = p.components) := by
  have horderly : s₁.Orderly p.IsFileSpelling :=
    orderly_run hbefore (fun a ha => hspelled a (List.mem_append_left _ ha))
      (orderly_new hnew disk _)
  have hwatching : s₁.watcher.isWatching = true := by
    by_contra hidle
    have hnone := (horderly.idle (by simpa using hidle)).2 p
    rw [htracked] at hnone
    cases hnone
  have hminds : s₁.Minds p (s₁.disk.look p) := ⟨hwatching, rfl, hincluded, .inl htracked⟩
  have has : ∀ a ∈ after, a.Spares p (s₁.disk.look p) ∧ a.Notifies p.IsFileSpelling := fun a ha =>
    ⟨hspares a ha, hspelled a (List.mem_append_right _ ha)⟩
  rcases agrees_or_waits_of_run hafter horderly hminds hp hfile has hkept (.inr hnamed) with
    (hagrees | hwaits) | hmerged
  · rw [← (minds_of_run hafter horderly hminds hp hfile has hkept).seen] at hagrees
    refine .inr ⟨fun signature hseen => ?_, fun hgone => ?_⟩
    · rw [hagrees, hseen]
      rfl
    · have huntracked : s.watcher.table.tracked.has p = false := by
        rw [WatchTable.Agrees, hgone] at hagrees
        rw [PathTable.has_eq_isSome_find?, ← Option.isSome_map, hagrees]
        rfl
      refine ⟨huntracked, ?_⟩
      have hopen : WatchAction.close ∉ after := fun hclose => hspares _ hclose
      have htells := tells_run hafter horderly.sound hwatching hopen
      have hsame := s₁.watcher.table.samePaths_watchSet
      obtain ⟨n, hn, hremoves⟩ := Notice.exists_of_replay ((hsame.has_eq p).trans htracked)
        (((htells.leads _ hsame).has_eq p).trans huntracked)
      cases n with
      | event e =>
        cases e with
        | change c => exact ⟨c, hn, hremoves⟩
        | ready files => exact hremoves.elim
        | error message paths => exact hremoves.elim
      | added q => exact hremoves.elim
      | dropped q => exact absurd hremoves (hkept q hn)
  · exact absurd hwaits hquiet
  · exact .inl hmerged

/-- The looks after the file has gone. -/
def goneLooks : List WatchAction :=
  [.notify .remove [sampleFile] 0, .drain 300, .settle ⟨0, 0⟩]

/-- The file is watched and goes, and the notification about that settles. -/
theorem settled_change_is_seen_gone :
    (sampleWatching.table.lose ⟨0, 0⟩ sampleFile).tracked.has sampleFile = false ∧
      ∃ c, .event (.change c) ∈ [Notice.event (.change ⟨sampleFile, .remove, ⟨0, 0⟩⟩)] ∧
        c.kind = .remove ∧ c.path.components = sampleFile.components := by
  have hbefore : run? ⟨sampleWatcher, fullDisk, []⟩
      [.watch sampleBackend [sampleFile], .edit bareDisk] =
      some (⟨sampleWatching, bareDisk, []⟩, [.event (.ready 1)]) := by
    rw [run?, act?, watch_sampleFile]
    rfl
  obtain ⟨mid, first, others, hedit, hlooks, hlog⟩ := run?_cons_eq_some_iff.mp run_goneActions
  obtain ⟨rfl, rfl⟩ := Prod.mk.inj (Option.some.inj hedit)
  obtain rfl := hlog
  have hmerged : ¬ MergedAway ⟨sampleWatching, bareDisk, []⟩ sampleFile goneLooks := by
    rintro ⟨earlier, paths, now, later, mid, log, hlooks, hrun, hadd, -⟩
    cases earlier with
    | nil =>
      obtain ⟨rfl, -⟩ := Prod.mk.inj (Option.some.inj hrun)
      cases hadd
    | cons a earlier => simp [goneLooks, List.cons_eq_append_iff] at hlooks
  have hspelled : ∀ a ∈ [.watch sampleBackend [sampleFile], .edit bareDisk] ++ goneLooks,
      a.Notifies sampleFile.IsFileSpelling := by
    have hspelling : sampleFile.IsFileSpelling sampleFile := ⟨by decide, fun _ => by decide⟩
    simpa [goneLooks, WatchAction.Notifies] using hspelling
  have hquiet : ¬ Waits
      ⟨{ sampleWatching with table := sampleWatching.table.lose ⟨0, 0⟩ sampleFile },
      bareDisk, []⟩ sampleFile := by
    rintro (hpending | ⟨q, hq, -⟩)
    · cases hpending
    · cases hq
  have hseen := settled_change_is_seen new_sampleOptions hbefore hlooks
    (p := sampleFile) (by decide)
    (by decide) (by decide) (by rw [look_bareDisk]; decide) hspelled
    (by simp [WatchAction.Spares]) (by simp)
    ⟨_, List.mem_cons_self .., rfl, sampleFile, List.mem_singleton.mpr rfl, rfl⟩ hquiet
  exact (hseen.resolve_left hmerged).2 look_bareDisk

/-- **A removal can be missed.**  The file is tracked when it is notified as added; it goes, and
that is notified before the quiet period is over.  Then nothing waits, and the file that is
gone is still tracked. -/
theorem removal_is_missed :
    ∃ s log, run? ⟨sampleWatcher, fullDisk, []⟩ [.watch sampleBackend [sampleFile],
        .notify .create [sampleFile] 0, .edit bareDisk, .notify .remove [sampleFile] 50] =
          some (s, log) ∧
      s.disk.look sampleFile = .missing ∧ ¬ s.Waits sampleFile ∧
      s.watcher.table.tracked.has sampleFile = true := by
  have hwatch : act? ⟨sampleWatcher, fullDisk, []⟩ (.watch sampleBackend [sampleFile]) =
      some (⟨sampleWatching, fullDisk, []⟩, [.event (.ready 1)]) := by
    rw [act?, watch_sampleFile]
    rfl
  refine ⟨⟨sampleWatching, bareDisk, []⟩, [.event (.ready 1)], ?_, look_bareDisk, ?_, rfl⟩
  · rw [run?, hwatch]
    rfl
  · rintro (hpending | ⟨q, hq, -⟩)
    · cases hpending
    · cases hq

end WatchState
end AnalysisRunner
