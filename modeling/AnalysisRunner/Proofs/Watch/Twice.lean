import AnalysisRunner.Proofs.Watch.Coverage

/-!
# Looking twice

Notifications come for nothing, too, so a look at a path that was just looked at, with the disk
as it was, should find nothing and change nothing.

It does where there is a file or a directory: a look takes over what it sees.  Where there is
nothing, it depends on what was tracked.  If the path was not, a directory may have been there,
and all the files in it are lost.  If the path was tracked, it is lost alone.  Now a table may
track a path and others inside it: when a directory takes the place of a file, what is in it is
found, and the file stays, for a look at a directory loses nothing.  When the directory goes as
well, the first look loses the file and the second look loses what was in the directory
(`WatchTable.Masks`).  This is the only way to have something left for a second look, and nothing
is ever left for a third.
-/

namespace AnalysisRunner
namespace WatchTable

variable {t : WatchTable} {disk : FileTree} {p : Path}

/-- Whether a look at a path finds nothing new. -/
def IsSettled (t : WatchTable) (disk : FileTree) (p : Path) : Prop :=
  ∀ time, t.settle disk time p = ([], t)

/-! ## 1. Directories -/

theorem filter_discover (t : WatchTable) (time : Timestamp) (entries : List WatchEntry) :
    (t.discover time entries).2.filter = t.filter := by
  induction entries generalizing t with
  | nil => rfl
  | cons e rest ih =>
    rw [discover]
    split
    · exact ih t
    · exact ih ((t.track e.path e.signature).count time)

theorem has_discover (htracked : t.tracked.has p = true) (time : Timestamp)
    (entries : List WatchEntry) : (t.discover time entries).2.tracked.has p = true := by
  rw [PathTable.has_eq_isSome_find?] at htracked ⊢
  rcases (find?_discover t time entries p).2 with hsame | ⟨e, -, -, hfound⟩
  · rw [hsame, htracked]
  · rw [hfound, Option.isSome_some]

/-- What was found is tracked after that, if it is not excluded. -/
theorem known_discover (t : WatchTable) (time : Timestamp) (entries : List WatchEntry) :
    ∀ e ∈ entries, (t.discover time entries).2.tracked.has e.path = true ∨
      t.excluded.has e.path = true := by
  induction entries generalizing t with
  | nil => simp
  | cons e rest ih =>
    rw [discover, List.forall_mem_cons]
    split
    · rename_i hknown
      rw [Bool.or_eq_true] at hknown
      exact ⟨hknown.imp_left fun htracked => has_discover htracked time rest, ih t⟩
    · refine ⟨.inl (has_discover ?_ time rest), ih ((t.track e.path e.signature).count time)⟩
      exact (PathTable.has_put ..).trans (Bool.or_eq_true_iff.mpr (.inl (decide_eq_true rfl)))

theorem discover_of_known {entries : List WatchEntry}
    (h : ∀ e ∈ entries, t.tracked.has e.path = true ∨ t.excluded.has e.path = true)
    (time : Timestamp) : t.discover time entries = ([], t) := by
  induction entries with
  | nil => rfl
  | cons e rest ih =>
    rw [List.forall_mem_cons] at h
    rw [discover, if_pos (Bool.or_eq_true_iff.mpr h.1)]
    exact ih h.2

theorem isSettled_of_directory (hlook : disk.look p = .directory) (time : Timestamp) :
    (t.settle disk time p).2.IsSettled disk p := by
  intro time'
  rw [settle.eq_def t, hlook]
  dsimp only
  cases hroot : t.rootFor p with
  | none =>
    rw [settle, hlook]
    dsimp only
    rw [hroot]
  | some root =>
    dsimp only
    generalize hfound : disk.scan t.filter root p = found
    have hroot' : (t.discover time found).2.rootFor p = some root := by
      rw [rootFor, (sameScope_discover t time found).1]
      exact hroot
    rw [settle, hlook]
    dsimp only
    rw [hroot', filter_discover]
    dsimp only
    rw [hfound]
    refine discover_of_known ?_ time'
    rw [(find?_discover t time found p).1]
    exact known_discover t time found

/-! ## 2. Files -/

theorem apply_of_seen {s : Signature}
    (hseen : (t.tracked.find? p).map WatchEntry.signature = some (some s)) (time : Timestamp) :
    t.apply time p (some s) = ([], t) := by
  unfold apply
  split
  · rfl
  · rw [hseen]
    exact if_pos rfl

/-- A file that is seen is of no interest, or it is taken over. -/
theorem apply_some_cases (t : WatchTable) (time : Timestamp) (p : Path) (s : Signature) :
    (∀ time', t.apply time' p (some s) = ([], t)) ∨
      (t.apply time p (some s)).2 = (t.track p (some s)).count time := by
  unfold apply
  split
  · exact .inl fun _ => rfl
  · cases (t.tracked.find? p).map WatchEntry.signature with
    | none =>
      dsimp only
      split
      · exact .inr rfl
      · exact .inl fun _ => rfl
    | some previous =>
      cases previous with
      | none => exact .inr rfl
      | some previous =>
        dsimp only
        split
        · exact .inl fun _ => rfl
        · exact .inr rfl

theorem isSettled_of_file {s : Signature} (hlook : disk.look p = .file s) (time : Timestamp) :
    (t.settle disk time p).2.IsSettled disk p := by
  intro time'
  rw [settle.eq_def t, hlook, settle, hlook]
  dsimp only
  rcases apply_some_cases t time p s with hsilent | htaken
  · rw [hsilent time]
    exact hsilent time'
  · rw [htaken]
    refine apply_of_seen ?_ time'
    exact congrArg (Option.map _) ((PathTable.find?_put ..).trans (if_pos rfl))

/-! ## 3. Nothing -/

/-- The tracked files inside a path, in the order of paths. -/
def filesInside (t : WatchTable) (p : Path) : List Path :=
  (t.trackedBelow p).filter fun q => !q.same p

/-- Whether a path is tracked as a file that is gone, and there are other tracked files inside
it. -/
def Masks (t : WatchTable) (disk : FileTree) (p : Path) : Prop :=
  disk.look p = .missing ∧ t.excluded.has p = false ∧ t.tracked.has p = true ∧ t.filesInside p ≠ []

theorem trackedBelow_lose (h : t.Sound) (time : Timestamp) (p : Path) :
    (t.lose time p).trackedBelow p = t.filesInside p := by
  rw [filesInside, trackedBelow, trackedBelow, List.filter_comm]
  exact congrArg (List.filter _) (h.keyed.sortedPaths_remove p)

/-- All that is at or below a path can be lost at once. -/
theorem trackedBelow_foldl_lose (h : t.Sound) (time : Timestamp) (p : Path) :
    ((t.trackedBelow p).foldl (lose time) t).trackedBelow p = [] := by
  rw [trackedBelow.eq_def (List.foldl ..), List.filter_eq_nil_iff]
  intro q hq hbelow
  obtain ⟨x, hx, rfl⟩ := List.mem_map.mp hq
  obtain ⟨k, hk⟩ := PathTable.mem_sorted.mp hx
  rw [(foldl_lose_eq _ time t).2, Table.get?_foldl_erase] at hk
  split at hk
  · cases hk
  · rename_i hkept
    refine hkept (List.mem_map.mpr ⟨x.1, List.mem_filter.mpr ⟨?_, hbelow⟩, h.keyed k x hk⟩)
    exact List.mem_map.mpr ⟨x, PathTable.mem_sorted.mpr ⟨k, hk⟩, rfl⟩

theorem apply_none_of_untracked (hexcluded : t.excluded.has p = false)
    (htracked : t.tracked.has p = false) (time : Timestamp) :
    t.apply time p none = ((t.trackedBelow p).map fun file => ⟨file, .remove, time⟩,
      (t.trackedBelow p).foldl (lose time) t) := by
  rw [PathTable.has_eq_isSome_find?, Option.isSome_eq_false_iff, Option.isNone_iff_eq_none]
    at htracked
  unfold apply
  rw [hexcluded, htracked]
  rfl

theorem apply_none_of_tracked (h : t.Sound) (hexcluded : t.excluded.has p = false)
    (htracked : t.tracked.has p = true) (time : Timestamp) :
    t.apply time p none = ([⟨p, .remove, time⟩], t.lose time p) := by
  rw [PathTable.has_eq_isSome_find?, Option.isSome_iff_exists] at htracked
  obtain ⟨e, he⟩ := htracked
  obtain ⟨s, hs⟩ := Option.isSome_iff_exists.mp (h.seen p e he)
  unfold apply
  rw [hexcluded, he, Option.map_some, hs]
  rfl

theorem settle_of_missing (hlook : disk.look p = .missing) (time : Timestamp) :
    t.settle disk time p = t.apply time p none := by
  rw [settle, hlook]

theorem isSettled_of_excluded (hlook : disk.look p = .missing)
    (hexcluded : t.excluded.has p = true) : t.IsSettled disk p := by
  intro time
  rw [settle_of_missing hlook]
  exact if_pos hexcluded

theorem isSettled_of_clear (hlook : disk.look p = .missing) (htracked : t.tracked.has p = false)
    (hbelow : t.trackedBelow p = []) : t.IsSettled disk p := by
  cases hexcluded : t.excluded.has p with
  | true => exact isSettled_of_excluded hlook hexcluded
  | false =>
    intro time
    rw [settle_of_missing hlook, apply_none_of_untracked hexcluded htracked, hbelow]
    rfl

/-- A path at which nothing was seen is not tracked after that. -/
theorem has_settle_of_missing (h : t.Sound) (hlook : disk.look p = .missing)
    (hexcluded : t.excluded.has p = false) (time : Timestamp) :
    (t.settle disk time p).2.tracked.has p = false := by
  rw [settle_of_missing hlook, PathTable.has_eq_isSome_find?]
  cases htracked : t.tracked.has p with
  | true =>
    have hself := find?_apply_self h hexcluded htracked time none
    rw [Option.map_none, Option.map_eq_none_iff] at hself
    rw [hself, Option.isSome_none]
  | false =>
    rw [PathTable.has_eq_isSome_find?] at htracked
    rcases find?_apply_none t time p p with hsame | ⟨-, hnone⟩
    · rw [hsame, htracked]
    · rw [hnone, Option.isSome_none]

/-! ## 4. A second look and a third -/

theorem not_masks_settle (h : t.Sound) (disk : FileTree) (time : Timestamp) (p : Path) :
    ¬ (t.settle disk time p).2.Masks disk p := by
  rintro ⟨hlook, hexcluded, htracked, -⟩
  rw [excluded_settle] at hexcluded
  rw [has_settle_of_missing h hlook hexcluded] at htracked
  cases htracked

/-- **What a look leaves for a second one**: the files that were masked by the one that it lost. -/
theorem settle_settle_of_masks (h : t.Sound) (hmasks : t.Masks disk p) (time time' : Timestamp) :
    ((t.settle disk time p).2.settle disk time' p).1 =
      (t.filesInside p).map fun file => ⟨file, .remove, time'⟩ := by
  obtain ⟨hlook, hexcluded, htracked, -⟩ := hmasks
  have hlost : (t.settle disk time p).2 = t.lose time p := by
    rw [settle_of_missing hlook, apply_none_of_tracked h hexcluded htracked]
  have hgone := has_settle_of_missing h hlook hexcluded time
  rw [← excluded_settle t disk time p] at hexcluded
  rw [settle_of_missing hlook, apply_none_of_untracked hexcluded hgone, hlost,
    trackedBelow_lose h]

/-- **A look leaves nothing for a second one**, if the path masks no other files. -/
theorem isSettled_settle (h : t.Sound) (hmasks : ¬ t.Masks disk p) (time : Timestamp) :
    (t.settle disk time p).2.IsSettled disk p := by
  cases hlook : disk.look p with
  | directory => exact isSettled_of_directory hlook time
  | file s => exact isSettled_of_file hlook time
  | missing =>
    cases hexcluded : t.excluded.has p with
    | true =>
      have hsettled := isSettled_of_excluded hlook hexcluded
      rw [hsettled time]
      exact hsettled
    | false =>
      refine isSettled_of_clear hlook (has_settle_of_missing h hlook hexcluded time) ?_
      rw [settle_of_missing hlook]
      cases htracked : t.tracked.has p with
      | false =>
        rw [apply_none_of_untracked hexcluded htracked]
        exact trackedBelow_foldl_lose h time p
      | true =>
        rw [apply_none_of_tracked h hexcluded htracked, trackedBelow_lose h]
        by_contra hinside
        exact hmasks ⟨hlook, hexcluded, htracked, hinside⟩

end WatchTable

namespace WatchState

/-- **A second look is silent, unless the first found a file gone that masked others.**  Whatever
was done to a watcher and whatever is on the disk, look at a path.  Another look at it finds
nothing and leaves the table as it is, exactly if the path was not tracked as a file that is gone
with other files inside it.  In that case the second look reports those files as removed.  And
after two looks there is nothing left for a third. -/
theorem second_look_is_silent_unless_masked {options : WatcherOptions} {w : Watcher}
    (hnew : Watcher.new options = .ok w) {disk : FileTree} {as : List WatchAction} {s : WatchState}
    {log : List Notice} (hrun : run? ⟨w, disk, []⟩ as = some (s, log)) (now : FileTree) (p : Path)
    (time time' : Timestamp) :
    let t := s.watcher.table
    let first := (t.settle now time p).2
    (first.IsSettled now p ↔ ¬ t.Masks now p) ∧
      (t.Masks now p → (first.settle now time' p).1 =
        (t.filesInside p).map fun file => ⟨file, .remove, time'⟩) ∧
      (first.settle now time' p).2.IsSettled now p := by
  intro t first
  have hsound : t.Sound := sound_run hrun (orderly_new hnew disk fun _ => True).sound
  have hfirst : first.Sound := (WatchTable.tells_settle hsound now time p).2
  refine ⟨⟨?_, fun hmasks => WatchTable.isSettled_settle hsound hmasks time⟩,
    fun hmasks => WatchTable.settle_settle_of_masks hsound hmasks time time',
    WatchTable.isSettled_settle hfirst (WatchTable.not_masks_settle hsound now time p) time'⟩
  intro hsettled hmasks
  have hsecond := WatchTable.settle_settle_of_masks hsound hmasks time time'
  rw [hsettled time'] at hsecond
  exact hmasks.2.2.2 (List.map_eq_nil_iff.mp hsecond.symm)

/-! ## 5. A directory in the place of a file

The file `/a` is watched.  A directory takes its place, and the file `/a/b` in it is watched, too.
Then all is gone. -/

def innerFile : Path :=
  .ofText "/a/b"

/-- A disk with the directory. -/
def nestedDisk : FileTree where
  nodes := (Table.empty.insert [[97], [98]] (.file [120] 0)).insert [[97]] .directory

def maskActions : List WatchAction :=
  [.watch sampleBackend [sampleFile], .edit nestedDisk, .addFile sampleBackend innerFile]

/-- The table in which both files are tracked. -/
def maskedTable : WatchTable :=
  Watcher.withFile sampleWatching.table innerFile (.file ⟨0, 1⟩)

theorem find_nestedDisk : nestedDisk.find innerFile = .ok ([[97], [98]], .file [120] 0) := by
  have hhops : innerFile.hops = [.down [97], .down [98]] := by decide
  rw [FileTree.find, FileTree.resolve, hhops, FileTree.walk]
  dsimp only
  rw [FileTree.walk]
  rfl

theorem run_maskActions : ∃ s log, run? ⟨sampleWatcher, fullDisk, []⟩ maskActions = some (s, log) ∧
    s.watcher.table = maskedTable := by
  have hresolve : Watcher.resolve nestedDisk innerFile = innerFile := by
    rw [Watcher.resolve, FileTree.canonical, find_nestedDisk]
    rfl
  have hlook : nestedDisk.look innerFile = .file ⟨0, 1⟩ := by
    rw [FileTree.look, find_nestedDisk]
    rfl
  have hadd : ∃ r, sampleWatching.addFile sampleBackend nestedDisk innerFile = .ok r := by
    unfold Watcher.addFile
    exact ⟨_, rfl⟩
  obtain ⟨r, hr⟩ := hadd
  have htable := (Watcher.addFile_eq_ok hr).2.1
  rw [hresolve, hlook] at htable
  refine ⟨⟨r.watcher, nestedDisk, []⟩, ?_⟩
  simp only [maskActions, run?, act?, watch_sampleFile, hr, Option.bind_some, Option.map_some]
  exact ⟨_, rfl, htable⟩

theorem filesInside_maskedTable (h : maskedTable.Sound) :
    maskedTable.filesInside sampleFile = [innerFile] := by
  have hsorted : PathTable.sorted (maskedTable.lose ⟨0, 0⟩ sampleFile).tracked =
      [(innerFile, ⟨innerFile, some ⟨0, 1⟩⟩)] :=
    congrArg (List.map Prod.snd) (List.mergeSort_singleton _)
  rw [← WatchTable.trackedBelow_lose h ⟨0, 0⟩, WatchTable.trackedBelow, WatchTable.files,
    PathTable.sortedPaths, hsorted]
  decide

/-- The first look at `/a` reports that `/a` is gone, the second that `/a/b` is gone, and the third
nothing. -/
theorem second_look_is_silent_unless_masked_nested :
    ∃ s log, run? ⟨sampleWatcher, fullDisk, []⟩ maskActions = some (s, log) ∧
      let first := s.watcher.table.settle bareDisk ⟨1, 0⟩ sampleFile
      let second := first.2.settle bareDisk ⟨2, 0⟩ sampleFile
      first.1 = [⟨sampleFile, .remove, ⟨1, 0⟩⟩] ∧ second.1 = [⟨innerFile, .remove, ⟨2, 0⟩⟩] ∧
        ¬ first.2.IsSettled bareDisk sampleFile ∧ second.2.IsSettled bareDisk sampleFile := by
  obtain ⟨s, log, hrun, htable⟩ := run_maskActions
  have hinside := filesInside_maskedTable
    (htable ▸ sound_run hrun (orderly_new new_sampleOptions fullDisk fun _ => True).sound)
  have hmasks : maskedTable.Masks bareDisk sampleFile :=
    ⟨look_bareDisk, rfl, rfl, hinside ▸ List.cons_ne_nil _ _⟩
  obtain ⟨hiff, hsecond, hthird⟩ := second_look_is_silent_unless_masked new_sampleOptions hrun
    bareDisk sampleFile ⟨1, 0⟩ ⟨2, 0⟩
  rw [htable] at hiff hsecond
  refine ⟨s, log, hrun, ?_, ?_, ?_, hthird⟩
  · rw [htable, WatchTable.settle_of_missing look_bareDisk]
    rfl
  · rw [htable, hsecond hmasks, hinside]
    rfl
  · rw [htable]
    exact fun hsettled => hiff.mp hsettled hmasks

end WatchState
end AnalysisRunner
