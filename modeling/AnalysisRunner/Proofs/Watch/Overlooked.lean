import AnalysisRunner.Proofs.Watch.Twice

/-!
# Notifications that are dropped too early

A notification waits for its path to be quiet only if the path is *relevant*: it is tracked or
named, or it lies in a watched directory and is not ignored there.  The other notifications are
dropped at once.  Relevance asks about the path alone, while a look at a directory is about the
files in it, so something may be lost (`WatchTable.Overlooks`):

* where a directory is gone, the files in it that are tracked;
* where there is a directory, the files in it that the filter accepts.

For each file that is lost so there is a reason why the directory itself does not matter
(`WatchTable.Reason`).  The file was named, and its directory is not watched or is ignored; or a
watched directory lies in the one that is gone; or a pattern matches the directory, and does not
match what is in it.
-/

namespace AnalysisRunner
namespace WatchTable

variable {t : WatchTable} {disk : FileTree} {p q : Path} {time : Timestamp}

/-! ## 1. What is not relevant -/

/-- Whether a path is of no interest itself: it is neither tracked nor named, and it is in no
watched directory, or is ignored there. -/
structure IsStranger (t : WatchTable) (p : Path) : Prop where
  untracked : t.tracked.has p = false
  unnamed : t.explicit.has p = false
  ignored : ∀ root, t.rootFor p = some root → t.filter.isIgnored p root = true

theorem isRelevant_eq_false_iff (hfree : t.excluded.has p = false) :
    t.isRelevant p = false ↔ t.IsStranger p := by
  rw [isRelevant, hfree, Bool.not_false, Bool.true_and, Bool.or_eq_false_iff,
    Bool.or_eq_false_iff]
  have hroot : ((t.rootFor p).any fun root => !t.filter.isIgnored p root) = false ↔
      ∀ root, t.rootFor p = some root → t.filter.isIgnored p root = true := by
    cases t.rootFor p <;> simp
  rw [hroot]
  exact ⟨fun h => ⟨h.1.1, h.1.2, h.2⟩, fun h => ⟨⟨h.untracked, h.unnamed⟩, h.ignored⟩⟩

theorem exists_rootFor {root : Path} (hroot : root ∈ t.roots) (hp : p.startsWith root = true) :
    ∃ above, t.rootFor p = some above := by
  have hfold : ∀ (roots : List Path) (best : Path),
      ∃ above, roots.foldl deeper (some best) = some above := by
    intro roots
    induction roots with
    | nil => exact fun best => ⟨best, rfl⟩
    | cons first rest ih =>
      intro best
      rw [List.foldl_cons, deeper]
      split
      · exact ih first
      · exact ih best
  have hmem := List.mem_filter.mpr ⟨hroot, hp⟩
  rw [rootFor]
  cases hroots : t.roots.filter fun root => p.startsWith root with
  | nil =>
    rw [hroots] at hmem
    cases hmem
  | cons first rest => exact hfold rest first

/-! ## 2. What a look finds there -/

/-- Whether a look at a path finds something, although the path is of no interest itself. -/
structure Overlooks (t : WatchTable) (disk : FileTree) (p : Path) : Prop where
  stranger : t.IsStranger p
  /-- A directory is gone in which there are tracked files, or there is one in which there are
  files to be tracked. -/
  finds : (disk.look p = .missing ∧ t.trackedBelow p ≠ []) ∨
    (disk.look p = .directory ∧ ∃ root, t.rootFor p = some root ∧
      ∃ e ∈ disk.scan t.filter root p, t.tracked.has e.path = false ∧ t.excluded.has e.path = false)

/-- What a scan reports are files that it found and that were not known. -/
theorem mem_discover {entries : List WatchEntry} {c : Change}
    (hc : c ∈ (t.discover time entries).1) : ∃ e ∈ entries, c = ⟨e.path, .add, time⟩ := by
  induction entries generalizing t with
  | nil => cases hc
  | cons e rest ih =>
    rw [discover] at hc
    split at hc
    · obtain ⟨e', he', hsame⟩ := ih hc
      exact ⟨e', List.mem_cons_of_mem _ he', hsame⟩
    · rcases List.mem_cons.mp hc with rfl | hc
      · exact ⟨e, List.mem_cons_self .., rfl⟩
      · obtain ⟨e', he', hsame⟩ := ih hc
        exact ⟨e', List.mem_cons_of_mem _ he', hsame⟩

/-- A scan reports something exactly if it finds a file that is neither tracked nor excluded. -/
theorem discover_ne_nil_iff {entries : List WatchEntry} :
    (t.discover time entries).1 ≠ [] ↔
      ∃ e ∈ entries, t.tracked.has e.path = false ∧ t.excluded.has e.path = false := by
  constructor
  · intro hne
    by_contra hnone
    refine hne (congrArg Prod.fst (discover_of_known (fun e he => ?_) time))
    by_contra hknown
    rw [not_or, Bool.not_eq_true, Bool.not_eq_true] at hknown
    exact hnone ⟨e, he, hknown⟩
  · rintro ⟨e, he, hnew, hfree⟩ hnil
    -- if nothing were reported, nothing would be taken over
    have hsame : ∀ (entries : List WatchEntry) (t : WatchTable),
        (t.discover time entries).1 = [] → (t.discover time entries).2 = t := by
      intro entries
      induction entries with
      | nil => exact fun _ _ => rfl
      | cons e rest ih =>
        intro t h
        rw [discover] at h ⊢
        split at h
        · rename_i hknown
          rw [if_pos hknown]
          exact ih t h
        · cases h
    rcases known_discover t time entries e he with htracked | hexcluded
    · rw [hsame entries t hnil, hnew] at htracked
      cases htracked
    · rw [hfree] at hexcluded
      cases hexcluded

theorem apply_some_of_stranger (h : t.IsStranger p) (s : Signature) :
    t.apply time p (some s) = ([], t) := by
  have hnone : t.tracked.find? p = none := by
    rw [← Option.isNone_iff_eq_none, ← Option.isSome_eq_false_iff, ← PathTable.has_eq_isSome_find?]
    exact h.untracked
  have heligible : t.isEligible p = false := by
    rw [isEligible, h.unnamed, Bool.false_or, Bool.and_eq_false_iff]
    refine .inr ?_
    cases hroot : t.rootFor p with
    | none => rfl
    | some root => rw [Option.any_some, Filter.accepts, h.ignored root hroot, Bool.not_true,
        Bool.and_false]
  unfold apply
  split
  · rfl
  · rw [hnone, Option.map_none]
    exact if_neg (by rw [heligible]; exact Bool.false_ne_true)

/-- **What a look at a path of no interest finds.** -/
theorem settle_ne_nil_iff (h : t.IsStranger p) (hfree : t.excluded.has p = false) :
    (t.settle disk time p).1 ≠ [] ↔ t.Overlooks disk p := by
  have hfinds : (t.settle disk time p).1 ≠ [] ↔
      (disk.look p = .missing ∧ t.trackedBelow p ≠ []) ∨
        (disk.look p = .directory ∧ ∃ root, t.rootFor p = some root ∧
          ∃ e ∈ disk.scan t.filter root p,
            t.tracked.has e.path = false ∧ t.excluded.has e.path = false) := by
    rw [settle]
    cases hlook : disk.look p with
    | missing =>
      dsimp only
      rw [apply_none_of_untracked hfree h.untracked]
      simp
    | file s =>
      dsimp only
      rw [apply_some_of_stranger h]
      simp
    | directory =>
      cases hroot : t.rootFor p with
      | none => simp
      | some root => simpa using discover_ne_nil_iff
  exact hfinds.trans ⟨fun hfound => ⟨h, hfound⟩, fun hfound => hfound.finds⟩

/-! ## 3. Why it is lost -/

/-- Whether a directory is ignored from the deepest watched directory that it is in, while a path
is accepted from a watched directory. -/
def Shadows (t : WatchTable) (p q : Path) : Prop :=
  (∃ above, t.rootFor p = some above ∧ t.filter.isIgnored p above = true) ∧
    ∃ root ∈ t.roots, q.startsWith root = true ∧ t.filter.accepts q root = true

/-- Why a change of a file that lies in a directory is lost with the directory. -/
structure Reason (t : WatchTable) (disk : FileTree) (p : Path) (c : Change) : Prop where
  inside : c.path.startsWith p = true
  /-- The directory is gone, and the file was tracked; or the directory is there, and the file is
  new. -/
  cause : (disk.look p = .missing ∧ c.kind = .remove ∧ t.tracked.has c.path = true ∧
      (t.explicit.has c.path = true ∨ (∃ root ∈ t.roots, root.startsWith p = true) ∨
        t.Shadows p c.path)) ∨
    (disk.look p = .directory ∧ c.kind = .add ∧ t.Shadows p c.path)

/-- A tracked file in a directory that is of no interest was named, or a watched directory lies in
the directory, or a pattern matches the directory and not the file. -/
theorem entitled_inside (h : t.Lawful) (hp : t.IsStranger p) (hq : q ∈ t.trackedBelow p) :
    t.tracked.has q = true ∧ q.startsWith p = true ∧
      (t.explicit.has q = true ∨ (∃ root ∈ t.roots, root.startsWith p = true) ∨ t.Shadows p q) := by
  obtain ⟨hfile, hbelow⟩ := List.mem_filter.mp hq
  refine ⟨h.sound.keyed.has_of_mem_sortedPaths hfile, hbelow, ?_⟩
  obtain ⟨x, hx, rfl⟩ := List.mem_map.mp hfile
  obtain ⟨k, hk⟩ := PathTable.mem_sorted.mp hx
  refine (h.entitled k x.1 x.2 hk).imp_right ?_
  rintro ⟨root, hroot, hstarts, haccepts⟩
  have hroot_prefix := List.isPrefixOf_iff_prefix.mp hstarts
  -- both directories hold the file, so one of them is in the other
  rcases List.prefix_or_prefix_of_prefix (List.isPrefixOf_iff_prefix.mp hbelow) hroot_prefix with
    habove | hwithin
  · exact .inl ⟨root, hroot, List.isPrefixOf_iff_prefix.mpr habove⟩
  · obtain ⟨above, habove⟩ := exists_rootFor hroot (List.isPrefixOf_iff_prefix.mpr hwithin)
    exact .inr ⟨⟨above, habove, hp.ignored above habove⟩, root, hroot, hstarts, haccepts⟩

/-- **Every change that is overlooked has a reason.** -/
theorem reason_of_mem_settle (h : t.Lawful) (hdisk : disk.IsNamed)
    (hfree : t.excluded.has p = false)
    (hover : t.Overlooks disk p) {c : Change} (hc : c ∈ (t.settle disk time p).1) :
    t.Reason disk p c := by
  rw [settle] at hc
  rcases hover.finds with ⟨hlook, -⟩ | ⟨hlook, root, hroot, -⟩
  · rw [hlook] at hc
    dsimp only at hc
    rw [apply_none_of_untracked hfree hover.stranger.untracked] at hc
    obtain ⟨file, hfile, rfl⟩ := List.mem_map.mp hc
    obtain ⟨htracked, hbelow, hwhy⟩ := entitled_inside h hover.stranger hfile
    exact ⟨hbelow, .inl ⟨hlook, rfl, htracked, hwhy⟩⟩
  · rw [hlook, hroot] at hc
    obtain ⟨e, he, rfl⟩ := mem_discover hc
    obtain ⟨hbelow, haccepts⟩ := hdisk.of_mem_scan he
    obtain ⟨hmem, hstarts⟩ := mem_of_rootFor hroot
    have hinside := (List.isPrefixOf_iff_prefix.mp hstarts).trans hbelow
    exact ⟨List.isPrefixOf_iff_prefix.mpr hbelow, .inr ⟨hlook, rfl,
      ⟨root, hroot, hover.stranger.ignored root hroot⟩, root, hmem,
      List.isPrefixOf_iff_prefix.mpr hinside, haccepts⟩⟩

end WatchTable

namespace WatchState

/-- A notification about a path that is not relevant is dropped. -/
theorem notify_of_irrelevant {w : Watcher} {p : Path} (h : w.table.isRelevant p = false)
    (kind : NotificationKind) (now : UInt64) : w.notify kind [p] now = w := by
  rcases w.notify_cases kind [p] now with ⟨hsame, -⟩ | ⟨d, k, hpending, -, hnotify⟩
  · exact hsame
  · have hnone : [p].filter w.table.isRelevant = [] := by
      rw [List.filter_cons_of_neg (by rw [h]; exact Bool.false_ne_true), List.filter_nil]
    rw [hnotify, hnone, List.foldl_nil, ← hpending]

/-- **A notification that would make a look report something is kept, unless it is overlooked.**
Whatever was done to a watcher and whatever is on the disk, take a path that is not excluded.  If
a look at it would report a change, then it is relevant, exactly if it is not overlooked.  Where
it is overlooked, a notification about it is dropped, and a look would have reported something.
If everything on the disks has a name that a file can have, then each change that is lost so is of
a file inside the path for which there is a reason. -/
theorem only_overlooked_changes_are_dropped {options : WatcherOptions} {w : Watcher}
    (hnew : Watcher.new options = .ok w) {disk : FileTree} {as : List WatchAction} {s : WatchState}
    {log : List Notice} (hrun : run? ⟨w, disk, []⟩ as = some (s, log)) (now : FileTree) {p : Path}
    (hfree : s.watcher.table.excluded.has p = false) (time : Timestamp) :
    let t := s.watcher.table
    let changes := (t.settle now time p).1
    ((changes ≠ [] → t.isRelevant p = true) ↔ ¬ t.Overlooks now p) ∧
      (t.Overlooks now p →
        changes ≠ [] ∧ ∀ kind moment, s.watcher.notify kind [p] moment = s.watcher) ∧
      (disk.IsNamed → (∀ a ∈ as, a.KeepsNames) → now.IsNamed → t.Overlooks now p →
        ∀ c ∈ changes, t.Reason now p c) := by
  intro t changes
  have hover : t.Overlooks now p → changes ≠ [] ∧ t.isRelevant p = false := fun h =>
    ⟨(WatchTable.settle_ne_nil_iff h.stranger hfree).mpr h,
      (WatchTable.isRelevant_eq_false_iff hfree).mpr h.stranger⟩
  refine ⟨⟨fun hkept h => ?_, fun hnot hchanges => ?_⟩,
    fun h => ⟨(hover h).1, notify_of_irrelevant (hover h).2⟩, fun hdisk has hnow h c hc => ?_⟩
  · have hrelevant := hkept (hover h).1
    rw [(hover h).2] at hrelevant
    cases hrelevant
  · by_contra hrelevant
    rw [Bool.not_eq_true, WatchTable.isRelevant_eq_false_iff hfree] at hrelevant
    exact hnot ((WatchTable.settle_ne_nil_iff hrelevant hfree).mp hchanges)
  · have hlawful : t.Lawful := (regular_run hrun has (regular_new hnew hdisk)).lawful
    exact WatchTable.reason_of_mem_settle hlawful hnow hfree h hc

/-! ## 4. A named file in a directory that is not watched

The file `/a/b` is watched by its name, and then the directory `/a` is gone. -/

/-- The table in which only the file is watched. -/
def namedTable : WatchTable :=
  { WatchTable.new ⟨[], []⟩ with
    explicit := PathSet.add .empty innerFile
    tracked := PathTable.put .empty innerFile ⟨innerFile, some ⟨0, 1⟩⟩ }

theorem run_named : ∃ s log,
    run? ⟨sampleWatcher, nestedDisk, []⟩ [.watch sampleBackend [innerFile]] = some (s, log) ∧
      s.watcher.table = namedTable := by
  have hcanonical : nestedDisk.canonical innerFile = .ok innerFile := by
    rw [FileTree.canonical, find_nestedDisk]
    rfl
  have hlook : nestedDisk.look innerFile = .file ⟨0, 1⟩ := by
    rw [FileTree.look, find_nestedDisk]
    rfl
  have hwatch : ∃ r, sampleWatcher.watch sampleBackend nestedDisk [innerFile] = .ok r ∧
      r.watcher.table = namedTable := by
    rw [Watcher.watch]
    simp only [List.map_cons, List.map_nil, Watcher.classify, hcanonical, hlook]
    exact ⟨_, rfl, rfl⟩
  obtain ⟨r, hr, htable⟩ := hwatch
  refine ⟨⟨r.watcher, nestedDisk, []⟩, r.events.map .event, ?_, htable⟩
  simp only [run?, act?, hr, Option.bind_some, Option.map_some, List.append_nil]

theorem isNamed_nestedDisk : nestedDisk.IsNamed := by
  have hname : ∀ name : Bytes, name = [97] ∨ name = [98] → name.IsFileName := by
    rintro name (rfl | rfl)
    · exact ⟨⟨rfl, by decide⟩, by decide, by decide⟩
    · exact ⟨⟨rfl, by decide⟩, by decide, by decide⟩
  intro loc n hn name hmem
  rw [nestedDisk, Table.get?_insert, Table.get?_insert] at hn
  refine hname name ?_
  split at hn
  · rename_i hloc
    rw [hloc] at hmem
    exact .inl (List.mem_singleton.mp hmem)
  · split at hn
    · rename_i hloc
      rw [hloc] at hmem
      simpa using hmem
    · cases hn

theorem trackedBelow_namedTable : namedTable.trackedBelow sampleFile = [innerFile] := by
  have hsorted : PathTable.sorted namedTable.tracked = [(innerFile, ⟨innerFile, some ⟨0, 1⟩⟩)] :=
    congrArg (List.map Prod.snd) (List.mergeSort_singleton _)
  rw [WatchTable.trackedBelow, WatchTable.files, PathTable.sortedPaths, hsorted]
  decide

/-- The notification that `/a` is gone is dropped, and a look would report that `/a/b` is gone,
which was named. -/
theorem only_overlooked_changes_are_dropped_named : ∃ s log,
    run? ⟨sampleWatcher, nestedDisk, []⟩ [.watch sampleBackend [innerFile]] = some (s, log) ∧
      s.watcher.notify .remove [sampleFile] 0 = s.watcher ∧
      (s.watcher.table.settle bareDisk ⟨1, 0⟩ sampleFile).1 = [⟨innerFile, .remove, ⟨1, 0⟩⟩] ∧
      s.watcher.table.Reason bareDisk sampleFile ⟨innerFile, .remove, ⟨1, 0⟩⟩ := by
  obtain ⟨s, log, hrun, htable⟩ := run_named
  have hover : s.watcher.table.Overlooks bareDisk sampleFile := by
    rw [htable]
    refine ⟨⟨rfl, rfl, fun root hroot => nomatch hroot⟩, .inl ⟨look_bareDisk, ?_⟩⟩
    rw [trackedBelow_namedTable]
    exact List.cons_ne_nil _ _
  have hfree : s.watcher.table.excluded.has sampleFile = false := by
    rw [htable]
    rfl
  have hchanges : (s.watcher.table.settle bareDisk ⟨1, 0⟩ sampleFile).1 =
      [⟨innerFile, .remove, ⟨1, 0⟩⟩] := by
    rw [WatchTable.settle_of_missing look_bareDisk,
      WatchTable.apply_none_of_untracked hfree hover.stranger.untracked, htable,
      trackedBelow_namedTable]
    rfl
  obtain ⟨-, hdropped, hreason⟩ :=
    only_overlooked_changes_are_dropped new_sampleOptions hrun bareDisk hfree ⟨1, 0⟩
  refine ⟨s, log, hrun, (hdropped hover).2 .remove 0, hchanges, ?_⟩
  refine hreason isNamed_nestedDisk (by simp [WatchAction.KeepsNames]) isNamed_bareDisk hover _ ?_
  rw [hchanges]
  exact List.mem_singleton.mpr rfl

end WatchState
end AnalysisRunner
