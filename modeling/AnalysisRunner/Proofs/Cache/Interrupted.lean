import AnalysisRunner.Proofs.Cache.Encoded

/-!
# Saves that are cut off

A save is a list of steps, and it can be cut off between any two of them and within some: while
directories are made one after the other, and while a draft is written.  A disk that may be found
then is a `DiskStep.Moment`.  Where the save is refused, it leaves such a disk too
(`DiskStep.moment_runAll`).

Files are replaced by a draft that is moved into place, so at every moment a file reads as it did
or as the whole new text (`FileTree.moment_of_replacement`), and the entries come first: the new
record is never seen without the new entries (`Archive.ShowsPart`).

This is so from the moment on at which the directory is there.  To make it may change what its
path leads to, though no file is touched.  On a straight way nothing of the kind happens; for each
way of not being straight the end of this file has a disk where a save that is refused makes a
directory unreadable that was merely missing.  It also has results that can be saved but not read.
-/

namespace AnalysisRunner

/-! ## 1. Moments -/

namespace DiskStep

variable {now : Nat} {disk d : FileTree} {step : DiskStep} {steps rest : List DiskStep}

/-- The disks that are passed while a step is under way.  Directories are made one after the
other, and a file that is being written holds some beginning of its content; everything else is
done at once. -/
def Passes (now : Nat) (disk d : FileTree) : DiskStep → Prop
  | .makeDirectories path => d ∈ disk.directoriesMade path
  | .write path content => ∃ part, part <+: content ∧ disk.write path part now = .ok d
  | _ => False

/-- Whether a disk may be found when a list of steps is cut off. -/
inductive Moment (now : Nat) : List DiskStep → FileTree → FileTree → Prop where
  | before {steps : List DiskStep} {disk : FileTree} : Moment now steps disk disk
  | during {step : DiskStep} {rest : List DiskStep} {disk d : FileTree}
      (h : step.Passes now disk d) : Moment now (step :: rest) disk d
  | after {step : DiskStep} {rest : List DiskStep} {disk mid d : FileTree}
      (hstep : step.run now disk = .ok mid) (h : Moment now rest mid d) :
      Moment now (step :: rest) disk d

theorem moment_left (now : Nat) (step : DiskStep) (rest : List DiskStep) (disk : FileTree) :
    Moment now (step :: rest) disk (step.left disk) := by
  cases step with
  | makeDirectories path =>
    have hlast : (disk.directoriesMade path).getLastD disk ∈ disk :: disk.directoriesMade path :=
      List.getLastD_mem_cons
    rcases List.mem_cons.mp hlast with hsame | hmem
    · rw [left, hsame]
      exact .before
    · exact .during hmem
  | _ => exact .before

/-- **Done or refused, a list of steps leaves one of its moments.** -/
theorem moment_runAll (now : Nat) (steps : List DiskStep) (disk : FileTree) :
    Moment now steps disk (runAll now steps disk).1 := by
  induction steps generalizing disk with
  | nil => exact .before
  | cons step rest ih =>
    rw [runAll]
    cases hstep : step.run now disk with
    | ok mid => exact .after hstep (ih mid)
    | error fault => exact moment_left now step rest disk

end DiskStep

/-! ## 2. While a file is replaced -/

namespace FileTree

variable {t t' u d : FileTree} {dir : Path} {draft name other content : Bytes} {now : Nat}
  {r : Nat × Location}

/-- What is read in a directory depends on the node under the name. -/
theorem read_join_congr (hname : name.IsFileName) (hnul : dir.bytes.contains 0 = false)
    (hway : t.wayTo dir = .ok r) (hway' : u.wayTo dir = .ok r) (hplain : t.IsPlainName dir name)
    (hsame : u.nodes.get? (r.2 ++ [name]) = t.nodes.get? (r.2 ++ [name])) :
    u.read (dir.join ⟨name⟩) = t.read (dir.join ⟨name⟩) := by
  have hplain' : u.IsPlainName dir name := by
    intro r' target hr'
    obtain rfl : r = r' := Except.ok.inj (hway'.symm.trans hr')
    rw [hsame]
    exact hplain r target hway
  rw [read, read, find, find, resolve_join_of_plain true hname hplain' hnul hway',
    resolve_join_of_plain true hname hplain hnul hway, hsame]

/-- A draft, or a beginning of it, is in no other file's way. -/
theorem read_of_write (hdraft : draft.IsFileName) (hother : other.IsFileName) (hne : other ≠ draft)
    (hplainDraft : t.IsPlainName dir draft) (hplain : t.IsPlainName dir other)
    (hwrite : t.write (dir.join ⟨draft⟩) content now = .ok d) :
    d.read (dir.join ⟨other⟩) = t.read (dir.join ⟨other⟩) := by
  obtain ⟨r, hnul, hway, hdir, rfl⟩ := exists_of_write hdraft hplainDraft hwrite
  refine read_join_congr hother hnul hway
    (wayTo_put_file hway hdir hplainDraft content now) hplain ?_
  rw [get?_put, if_neg (by simpa using hne)]

theorem Replaced.read (h : Replaced t t' dir r draft name content now) (hname : name.IsFileName) :
    t'.read (dir.join ⟨name⟩) = .ok content := by
  have hfile : t'.nodes.get? (r.2 ++ [name]) = some (.file content now) := by
    rw [h.get?, if_pos rfl]
  exact read_of_file hname h.nul h.way' hfile

theorem Replaced.read_other (h : Replaced t t' dir r draft name content now)
    (hother : other.IsFileName) (hne : other ≠ draft) (hne' : other ≠ name)
    (hplain : t.IsPlainName dir other) :
    t'.read (dir.join ⟨other⟩) = t.read (dir.join ⟨other⟩) := by
  refine read_join_congr hother h.nul h.way h.way' hplain ?_
  rw [h.get?, if_neg (by simpa using hne'), if_neg (by simpa using hne)]

/-- **While a file is replaced, everything but the draft is read as before; then it is
replaced.** -/
theorem moment_of_replacement {rest : List DiskStep} (htree : t.IsTree) (hdraft : draft.IsFileName)
    (hname : name.IsFileName) (hne : draft ≠ name) (hplainDraft : t.IsPlainName dir draft)
    (hplain : t.IsPlainName dir name)
    (h : DiskStep.Moment now (.write (dir.join ⟨draft⟩) content ::
      .rename (dir.join ⟨draft⟩) (dir.join ⟨name⟩) :: rest) t d) :
    (∀ other : Bytes, other.IsFileName → other ≠ draft → t.IsPlainName dir other →
        d.read (dir.join ⟨other⟩) = t.read (dir.join ⟨other⟩)) ∨
      ∃ t' r, Replaced t t' dir r draft name content now ∧ DiskStep.Moment now rest t' d := by
  cases h with
  | before => exact .inl fun _ _ _ _ => rfl
  | during hpass =>
    obtain ⟨part, -, hwrite⟩ := hpass
    exact .inl fun other hother hne hplain =>
      read_of_write hdraft hother hne hplainDraft hplain hwrite
  | after hwrite h =>
    cases h with
    | before =>
      exact .inl fun other hother hne hplain =>
        read_of_write hdraft hother hne hplainDraft hplain hwrite
    | during hpass => exact hpass.elim
    | after hrename h =>
      obtain ⟨r, hreplaced⟩ := replaced_of_run htree hdraft hname hne hplainDraft
        hplain hwrite hrename
      exact .inr ⟨_, r, hreplaced, h⟩

end FileTree

/-! ## 3. While a cache is saved -/

namespace Archive

variable {dir : Path} {disk m d made : FileTree} {es : List Entry} {r : SaveRecord} {now : Nat}

/-- What the two files of a directory show of a save, compared with another disk: nothing, the
entries alone, or all of it. -/
def ShowsPart (dir : Path) (es : List Entry) (r : SaveRecord) (m d : FileTree) : Prop :=
  (d.read (entriesFile dir) = m.read (entriesFile dir) ∧
    d.read (recordFile dir) = m.read (recordFile dir)) ∨
  (d.read (entriesFile dir) = .ok (Bytes.ofText (entriesText es)) ∧
    d.read (recordFile dir) = m.read (recordFile dir)) ∨
  (d.read (entriesFile dir) = .ok (Bytes.ofText (entriesText es)) ∧
    d.read (recordFile dir) = .ok (Bytes.ofText (recordText r)))

theorem ShowsPart.congr (h : ShowsPart dir es r m d)
    (hentries : m.read (entriesFile dir) = disk.read (entriesFile dir))
    (hrecord : m.read (recordFile dir) = disk.read (recordFile dir)) :
    ShowsPart dir es r disk d := by
  rwa [ShowsPart, ← hentries, ← hrecord]

/-- Once the directory is there, a save shows a part of itself at every moment. -/
theorem showsPart_of_made (htree : made.IsTree)
    (hnames : ∀ name ∈ fileNames, made.IsPlainName dir name)
    (h : DiskStep.Moment now (saveSteps dir es r).tail made d) : ShowsPart dir es r made d := by
  have hentries : (Bytes.ofText "entries.json").IsFileName := isFileName_of_mem (by decide)
  have hrecord : (Bytes.ofText "metadata.json").IsFileName := isFileName_of_mem (by decide)
  rcases FileTree.moment_of_replacement htree (isFileName_of_mem (by decide)) hentries (by decide)
    (hnames _ (by decide)) (hnames _ (by decide)) h with hbefore | ⟨mid, way, hreplaced, h⟩
  · exact .inl ⟨hbefore _ hentries (by decide) (hnames _ (by decide)),
      hbefore _ hrecord (by decide) (hnames _ (by decide))⟩
  have hnames' : ∀ name ∈ fileNames, mid.IsPlainName dir name := fun name hname =>
    hreplaced.isPlainName (hnames name hname)
  have hnew := hreplaced.read hentries
  have hold := hreplaced.read_other hrecord (by decide) (by decide) (hnames _ (by decide))
  rcases FileTree.moment_of_replacement hreplaced.isTree (isFileName_of_mem (by decide)) hrecord
    (by decide) (hnames' _ (by decide)) (hnames' _ (by decide)) h with
    hbefore | ⟨last, way', hreplaced', h⟩
  · exact .inr (.inl ⟨(hbefore _ hentries (by decide) (hnames' _ (by decide))).trans hnew,
      (hbefore _ hrecord (by decide) (hnames' _ (by decide))).trans hold⟩)
  · -- nothing comes after the second replacement
    cases h
    exact .inr (.inr ⟨(hreplaced'.read_other hentries (by decide) (by decide)
      (hnames' _ (by decide))).trans hnew, hreplaced'.read hrecord⟩)

/-- At every moment of a save, the directories that were made so far and a part of the save
show. -/
theorem exists_grown_of_moment (htree : disk.IsTree) (hplain : IsPlain dir disk)
    (h : DiskStep.Moment now (saveSteps dir es r) disk d) :
    ∃ m, (m = disk ∨ m ∈ disk.directoriesMade dir) ∧ ShowsPart dir es r m d := by
  cases h with
  | before => exact ⟨disk, .inl rfl, .inl ⟨rfl, rfl⟩⟩
  | during hpass => exact ⟨d, .inr hpass, .inl ⟨rfl, rfl⟩⟩
  | after hmade h =>
    exact ⟨_, FileTree.mem_of_makeDirectories hmade,
      showsPart_of_made (htree.makeDirectories hmade) (hplain _ hmade) h⟩

theorem ShowsPart.readEntries (h : ShowsPart dir es r disk d) {es' : List Entry}
    (hes : entries? (entriesText es) = some es') :
    readEntries dir d = readEntries dir disk ∨ readEntries dir d = .ok (some es') := by
  rcases h with ⟨hentries, -⟩ | ⟨hentries, -⟩ | ⟨hentries, -⟩
  · left
    rw [Archive.readEntries, Archive.readEntries, hentries]
  · exact .inr (readEntries_of_read hentries hes)
  · exact .inr (readEntries_of_read hentries hes)

theorem ShowsPart.readRecord (h : ShowsPart dir es r disk d) :
    readRecord dir d = readRecord dir disk ∨ readRecord dir d = some r := by
  rcases h with ⟨-, hrecord⟩ | ⟨-, hrecord⟩ | ⟨-, hrecord⟩
  · left
    rw [Archive.readRecord, Archive.readRecord, hrecord]
  · left
    rw [Archive.readRecord, Archive.readRecord, hrecord]
  · exact .inr (readRecord_of_read hrecord)

/-- **A save that is cut off or refused shows a part of itself.**  The names that it uses are no
links.  Whenever it is cut off, also while a directory is made or a draft is written, and wherever
it is refused:

* the disk reads as it did before the save, but for directories that have been made: the entries
  are the old ones or all of the new ones, the record is the old one or the new one, and the new
  record is seen only together with the new entries;
* if the way to the directory is straight, directories that have been made do not count, and the
  files read as before the save;
* then entries that could be read can be read at every moment, if the new ones can, and so can a
  record. -/
theorem interrupted_save_shows_part (htree : disk.IsTree) (hplain : IsPlain dir disk)
    (es : List Entry) (r : SaveRecord) (now : Nat) :
    DiskStep.Moment now (saveSteps dir es r) disk (save dir es r now disk).1 ∧
    ∀ d, DiskStep.Moment now (saveSteps dir es r) disk d →
      (∃ m, disk.Grown m ∧ ShowsPart dir es r m d) ∧
      (disk.GoesStraight dir → ShowsPart dir es r disk d ∧
        ((entries? (entriesText es)).isSome → (∃ old, readEntries dir disk = .ok old) →
          ∃ new, readEntries dir d = .ok new) ∧
        ∀ old, readRecord dir disk = some old →
          readRecord dir d = some old ∨ readRecord dir d = some r) := by
  refine ⟨?_, fun d hd => ?_⟩
  · have hleft := DiskStep.moment_runAll now (saveSteps dir es r) disk
    rw [save]
    split <;> simpa [*] using hleft
  · obtain ⟨m, hm, hpart⟩ := exists_grown_of_moment htree hplain hd
    refine ⟨⟨m, ?_, hpart⟩, fun hstraight => ?_⟩
    · rcases hm with rfl | hm
      · exact m.grown_self
      · exact FileTree.grown_of_mem_directoriesMade m hm
    have hpart' : ShowsPart dir es r disk d := by
      rcases hm with rfl | hm
      · exact hpart
      · exact hpart.congr
          (FileTree.read_of_mem_directoriesMade htree hstraight
            (isFileName_of_mem (by decide)) m hm)
          (FileTree.read_of_mem_directoriesMade htree hstraight
            (isFileName_of_mem (by decide)) m hm)
    refine ⟨hpart', ?_, ?_⟩
    · rintro hnew ⟨old, hold⟩
      obtain ⟨es', hes⟩ := Option.isSome_iff_exists.mp hnew
      rcases hpart'.readEntries hes with hsame | hread
      · exact ⟨old, hsame.trans hold⟩
      · exact ⟨some es', hread⟩
    · intro old hold
      rcases hpart'.readRecord with hsame | hread
      · exact .inl (hsame.trans hold)
      · exact .inr hread

/-- The disk with nothing on it, once a directory has been made. -/
def freshDisk : FileTree :=
  Cache.emptyDisk.put [Bytes.ofText "c"] .directory

theorem hops_fresh : (Path.ofText "/c").hops = [Bytes.ofText "c"].map .down := by
  decide

theorem makeDirectory_fresh : Cache.emptyDisk.makeDirectory (.ofText "/c") = .ok freshDisk := by
  rw [FileTree.makeDirectory, if_neg (by decide), if_neg (by decide), if_neg (by decide),
    hops_fresh, List.map_singleton, FileTree.walk]
  rfl

theorem makeDirectories_fresh : Cache.emptyDisk.makeDirectories (.ofText "/c") = .ok freshDisk := by
  rw [FileTree.makeDirectories, FileTree.makeDirectoriesUpTo, if_neg (by decide),
    makeDirectory_fresh]
  rfl

theorem wayTo_fresh :
    freshDisk.wayTo (.ofText "/c") = .ok (FileTree.maxLinks, [Bytes.ofText "c"]) := by
  have hnode : freshDisk.nodes.get? ([] ++ [Bytes.ofText "c"]) = some .directory := rfl
  have hstart : freshDisk.start (.ofText "/c") = [] := rfl
  rw [FileTree.wayTo, hstart, hops_fresh, List.map_singleton, FileTree.descend,
    if_neg (by decide)]
  simp only [hnode]
  rw [FileTree.descend]
  rfl

/-- Three bytes of the draft are written, in a directory that has just been made. -/
theorem interrupted_save_shows_part_drafting :
    let dir := Path.ofText "/c"
    let r : SaveRecord := ⟨1, 2, 3, 4, 5⟩
    ∃ d, DiskStep.Moment 7 (saveSteps dir [escapedEntry] r) Cache.emptyDisk d ∧
      d.read (entriesDraft dir) = .ok ((Bytes.ofText (entriesText [escapedEntry])).take 3) ∧
      ShowsPart dir [escapedEntry] r Cache.emptyDisk d ∧ ∃ new, readEntries dir d = .ok new := by
  intro dir r
  have hnames : ∀ name ∈ fileNames, freshDisk.IsPlainName dir name := fun _ =>
    isPlainName_of_free wayTo_fresh fun _ _ => rfl
  have hplain : IsPlain dir Cache.emptyDisk := by
    intro made hmade
    obtain rfl : freshDisk = made := Except.ok.inj (makeDirectories_fresh.symm.trans hmade)
    exact hnames
  have hdraft : (Bytes.ofText "entries.json.tmp").IsFileName := isFileName_of_mem (by decide)
  have hplainDraft := hnames (Bytes.ofText "entries.json.tmp") (by decide)
  have hfree : freshDisk.nodes.get? ([Bytes.ofText "c"] ++ [Bytes.ofText "entries.json.tmp"]) ≠
      some .directory := by
    decide
  have hwrite := FileTree.write_of_plain hdraft hplainDraft (by decide) wayTo_fresh hfree
    ((Bytes.ofText (entriesText [escapedEntry])).take 3) 7
  have hmoment : DiskStep.Moment 7 (saveSteps dir [escapedEntry] r) Cache.emptyDisk _ :=
    .after makeDirectories_fresh (.during ⟨_, List.take_prefix _ _, hwrite⟩)
  have hempty : readEntries dir Cache.emptyDisk = .ok none := by
    have hway : Cache.emptyDisk.wayTo dir = .error .notFound := by
      rw [FileTree.wayTo, hops_fresh, List.map_singleton, FileTree.descend]
      rfl
    rw [readEntries, entriesFile, Path.ofText,
      FileTree.read_of_wayTo_error (isFileName_of_mem (by decide)) (by decide) hway]
  have hstraight : Cache.emptyDisk.GoesStraight dir :=
    FileTree.goesStraight_of_hops hops_fresh (by decide) _
  obtain ⟨-, hall⟩ := interrupted_save_shows_part Cache.isTree_emptyDisk hplain [escapedEntry] r 7
  obtain ⟨hpart, hreadable, -⟩ := (hall _ hmoment).2 hstraight
  have hnew : (entries? (entriesText [escapedEntry])).isSome := by
    rw [entries?_of_isStorable (by simpa using isStorable_escapedEntry)]
    rfl
  refine ⟨_, hmoment, ?_, hpart, hreadable hnew ⟨none, hempty⟩⟩
  have hway := FileTree.wayTo_put_file wayTo_fresh hfree hplainDraft
    ((Bytes.ofText (entriesText [escapedEntry])).take 3) 7
  exact FileTree.read_of_file hdraft (by decide) hway (by rw [FileTree.get?_put, if_pos rfl])

/-! ## 4. Ways that are not straight

A save that is refused may leave directories behind.  There are two kinds of ways that are not
straight, and on both this may show: a way may turn back after a name that is missing, as
`/a/../f` does, and a name that is too long may follow such a name.  Before the save there is
nothing at the first name, so there are no entries; after it the way ends further on. -/

/-- **What was missing can no longer be read**, if another fault is met once directories have been
left behind. -/
theorem refused_save_of_made {fault fault' : DiskFault}
    (hmade : FileTree.makeDirectoriesUpTo (dir.components.length + 1) disk dir = ([d], some fault))
    (hold : disk.read (entriesFile dir) = .error .notFound)
    (hnew : d.read (entriesFile dir) = .error fault') (hfault : fault' ≠ .notFound)
    (es : List Entry) (r : SaveRecord) (now : Nat) :
    IsPlain dir disk ∧ save dir es r now disk = (d, .error (.disk fault)) ∧
      DiskStep.Moment now (saveSteps dir es r) disk d ∧ readEntries dir disk = .ok none ∧
      readEntries dir d = .error (.disk fault') ∧ ¬ ShowsPart dir es r disk d := by
  have hrefused : disk.makeDirectories dir = .error fault := by
    rw [FileTree.makeDirectories, hmade]
  have hleft : disk.directoriesMade dir = [d] := by
    rw [FileTree.directoriesMade, hmade]
  have hrun : DiskStep.runAll now (saveSteps dir es r) disk = (d, some fault) := by
    rw [saveSteps, DiskStep.runAll, DiskStep.run, hrefused, DiskStep.left, hleft]
    rfl
  have hmoment := DiskStep.moment_runAll now (saveSteps dir es r) disk
  rw [hrun] at hmoment
  refine ⟨?_, ?_, hmoment, ?_, ?_, ?_⟩
  · intro made h
    rw [hrefused] at h
    cases h
  · rw [save, hrun]
  · rw [readEntries, hold]
  · rw [readEntries, hnew]
    cases fault' <;> first | rfl | exact absurd rfl hfault
  · rintro (⟨hentries, -⟩ | ⟨hentries, -⟩ | ⟨hentries, -⟩)
    · rw [hnew, hold] at hentries
      exact hfault (Except.error.inj hentries)
    · rw [hnew] at hentries
      cases hentries
    · rw [hnew] at hentries
      cases hentries

/-- A disk with one file on it. -/
def fileDisk : FileTree where
  nodes := Table.empty.insert [Bytes.ofText "f"] (.file [] 0)

/-- The disk once a directory has been made beside the file. -/
def fileDisk' : FileTree :=
  fileDisk.put [Bytes.ofText "a"] .directory

theorem isTree_fileDisk : fileDisk.IsTree := by
  refine ⟨?_, rfl⟩
  intro loc name n hn
  have hloc : loc ++ [name] = [Bytes.ofText "f"] := by
    rw [fileDisk, Table.get?_insert] at hn
    split at hn
    · assumption
    · cases hn
  have hnil : loc = [] := by
    simpa using congrArg List.length hloc
  rw [hnil]
  rfl

theorem hops_above : (Path.ofText "/a/..").hops = [.down (Bytes.ofText "a"), .up] := by
  decide

theorem hops_through :
    (Path.ofText "/a/../f").hops = (Path.ofText "/a/..").hops ++ [.down (Bytes.ofText "f")] := by
  decide

theorem wayTo_above : fileDisk'.wayTo (.ofText "/a/..") = .ok (FileTree.maxLinks, []) := by
  have hnode : fileDisk'.nodes.get? ([] ++ [Bytes.ofText "a"]) = some .directory := rfl
  have hstart : fileDisk'.start (.ofText "/a/..") = [] := by decide
  rw [FileTree.wayTo, hstart, hops_above, FileTree.descend, if_neg (by decide)]
  simp only [hnode]
  rw [FileTree.descend, FileTree.descend]
  rfl

theorem find_through : fileDisk'.find (.ofText "/a/../f") = .ok ([Bytes.ofText "f"], .file [] 0) ∧
    fileDisk'.makeDirectory (.ofText "/a/../f") = .error .alreadyExists := by
  have hdir : (Path.ofText "/a/../f").isDirectoryOnly = false := by decide
  have hway : fileDisk'.descend FileTree.maxLinks [] (Path.ofText "/a/..").hops =
      .ok (FileTree.maxLinks, []) := wayTo_above
  have hwalk : ∀ follow, fileDisk'.walk follow FileTree.maxLinks [] (Path.ofText "/a/../f").hops =
      .ok (.node [Bytes.ofText "f"] (.file [] 0)) := by
    intro follow
    rw [hops_through, FileTree.walk_append fileDisk' follow (List.cons_ne_nil _ _), hway,
      Except.bind, FileTree.walk]
    rfl
  constructor
  · rw [FileTree.find, FileTree.resolve, if_neg (by decide), if_neg (by decide), hdir,
      if_pos (by decide), hwalk]
    rfl
  · rw [FileTree.makeDirectory, if_neg (by decide), if_neg (by decide), if_neg (by decide),
      if_pos (by decide), hwalk]

theorem makeDirectory_fileDisk : fileDisk.makeDirectory (.ofText "/a/../f") = .error .notFound ∧
    fileDisk.makeDirectory (.ofText "/a/..") = .error .notFound ∧
    fileDisk.makeDirectory (.ofText "/a") = .ok fileDisk' := by
  have hhops : (Path.ofText "/a").hops = [.down (Bytes.ofText "a")] := by decide
  refine ⟨?_, ?_, ?_⟩
  · rw [FileTree.makeDirectory, if_neg (by decide), if_neg (by decide), if_neg (by decide),
      hops_through, hops_above, List.cons_append, FileTree.walk]
    rfl
  · rw [FileTree.makeDirectory, if_neg (by decide), if_neg (by decide), if_neg (by decide),
      hops_above, FileTree.walk]
    rfl
  · rw [FileTree.makeDirectory, if_neg (by decide), if_neg (by decide), if_neg (by decide), hhops,
      FileTree.walk]
    rfl

theorem made_fileDisk : FileTree.makeDirectoriesUpTo 5 fileDisk (.ofText "/a/../f") =
    ([fileDisk'], some .alreadyExists) := by
  have hparent : (Path.ofText "/a/../f").parent? = some (.ofText "/a/..") := by decide
  have hparent' : (Path.ofText "/a/..").parent? = some (.ofText "/a") := by decide
  obtain ⟨hthrough, habove, hfirst⟩ := makeDirectory_fileDisk
  have hfile : ¬ fileDisk'.isDirectory (.ofText "/a/../f") = true := by
    rw [FileTree.isDirectory, find_through.1]
    simp
  have hone : FileTree.makeDirectoriesUpTo 3 fileDisk (.ofText "/a") = ([fileDisk'], none) := by
    rw [FileTree.makeDirectoriesUpTo, if_neg (by decide), hfirst]
  have htwo : FileTree.makeDirectoriesUpTo 4 fileDisk (.ofText "/a/..") = ([fileDisk'], none) :=
    (FileTree.makeDirectoriesUpTo_of_missing (by decide) habove hparent' hone
      (FileTree.makeDirectory_of_wayTo (by decide) (by decide) wayTo_above)).trans
      (congrArg (Prod.mk [fileDisk'])
        (if_pos (FileTree.isDirectory_of_wayTo (by decide) (by decide) wayTo_above)))
  exact (FileTree.makeDirectoriesUpTo_of_missing (by decide) hthrough hparent htwo
    find_through.2).trans (congrArg (Prod.mk [fileDisk']) (if_neg hfile))

theorem read_fileDisk {name : Bytes} (hname : name.IsFileName) :
    fileDisk.read ((Path.ofText "/a/../f").join ⟨name⟩) = .error .notFound ∧
      fileDisk'.read ((Path.ofText "/a/../f").join ⟨name⟩) = .error .notDirectory := by
  have hstart : ∀ t : FileTree, t.start (.ofText "/a/../f") = [] := fun _ => rfl
  have hway : fileDisk'.descend FileTree.maxLinks [] (Path.ofText "/a/..").hops =
      .ok (FileTree.maxLinks, []) := wayTo_above
  constructor
  · apply FileTree.read_of_wayTo_error hname (by decide)
    rw [FileTree.wayTo, hstart, hops_through, hops_above, List.cons_append, FileTree.descend]
    rfl
  · apply FileTree.read_of_wayTo_error hname (by decide)
    rw [FileTree.wayTo, hstart, hops_through, FileTree.descend_append, hway, Except.bind,
      FileTree.descend]
    rfl

/-- **A save that is refused may show more than a part of itself**, where the way to its directory
is not straight: what was missing can no longer be read. -/
theorem refused_save_spoils_missing_directory :
    let dir := Path.ofText "/a/../f"
    let r : SaveRecord := ⟨1, 2, 3, 4, 5⟩
    fileDisk.IsTree ∧ IsPlain dir fileDisk ∧
      (save dir [] r 0 fileDisk).2 = .error (.disk .alreadyExists) ∧
      DiskStep.Moment 0 (saveSteps dir [] r) fileDisk (save dir [] r 0 fileDisk).1 ∧
      readEntries dir fileDisk = .ok none ∧
      readEntries dir (save dir [] r 0 fileDisk).1 = .error (.disk .notDirectory) ∧
      ¬ ShowsPart dir [] r fileDisk (save dir [] r 0 fileDisk).1 := by
  intro dir r
  have hlength : dir.components.length + 1 = 5 := by decide
  have hname : (Bytes.ofText "entries.json").IsFileName := isFileName_of_mem (by decide)
  obtain ⟨hold, hnew⟩ := read_fileDisk hname
  obtain ⟨hplain, hsave, hmoment, hbefore, hafter, hpart⟩ := refused_save_of_made
    (hlength ▸ made_fileDisk) hold hnew (by decide) [] r 0
  rw [hsave]
  exact ⟨isTree_fileDisk, hplain, rfl, hmoment, hbefore, hafter, hpart⟩

/-- A name that is too long for a disk. -/
def longName : Bytes :=
  List.replicate (FileTree.maxNameLength + 1) 120

/-- A directory of that name. -/
def longDirectory : Path :=
  (Path.ofText "/c").join ⟨longName⟩

theorem hops_longDirectory : longDirectory.hops = [.down (Bytes.ofText "c"), .down longName] := by
  decide +kernel

theorem made_longDirectory : FileTree.makeDirectoriesUpTo 4 Cache.emptyDisk longDirectory =
    ([freshDisk], some .nameTooLong) := by
  have hparent : longDirectory.parent? = some (.ofText "/c") := by decide +kernel
  have hmissing : Cache.emptyDisk.makeDirectory longDirectory = .error .notFound := by
    rw [FileTree.makeDirectory, if_neg (by decide +kernel), if_neg (by decide +kernel),
      if_neg (by decide +kernel), hops_longDirectory, FileTree.walk]
    rfl
  have hnode : freshDisk.nodes.get? ([] ++ [Bytes.ofText "c"]) = some .directory := rfl
  have hwalk : ∀ follow, freshDisk.walk follow FileTree.maxLinks [] longDirectory.hops =
      .error .nameTooLong := by
    intro follow
    rw [hops_longDirectory, FileTree.walk, if_neg (by decide)]
    simp only [hnode]
    rw [FileTree.walk, if_pos (by decide +kernel)]
  have hlong : freshDisk.makeDirectory longDirectory = .error .nameTooLong := by
    rw [FileTree.makeDirectory, if_neg (by decide +kernel), if_neg (by decide +kernel),
      if_neg (by decide +kernel), if_pos (by decide +kernel), hwalk]
  have hnone : ¬ freshDisk.isDirectory longDirectory = true := by
    rw [FileTree.isDirectory, FileTree.find, FileTree.resolve, if_neg (by decide +kernel),
      if_neg (by decide +kernel), if_pos (by decide +kernel), hwalk]
    simp
  have hone : FileTree.makeDirectoriesUpTo 3 Cache.emptyDisk (.ofText "/c") =
      ([freshDisk], none) := by
    rw [FileTree.makeDirectoriesUpTo, if_neg (by decide), makeDirectory_fresh]
  exact (FileTree.makeDirectoriesUpTo_of_missing (by decide +kernel) hmissing hparent hone
    hlong).trans (congrArg (Prod.mk [freshDisk]) (if_neg hnone))

theorem read_longDirectory {name : Bytes} (hname : name.IsFileName) :
    Cache.emptyDisk.read (longDirectory.join ⟨name⟩) = .error .notFound ∧
      freshDisk.read (longDirectory.join ⟨name⟩) = .error .nameTooLong := by
  have hnode : freshDisk.nodes.get? ([] ++ [Bytes.ofText "c"]) = some .directory := rfl
  have hstart : ∀ t : FileTree, t.start longDirectory = [] := fun _ => rfl
  constructor
  · apply FileTree.read_of_wayTo_error hname (by decide +kernel)
    rw [FileTree.wayTo, hstart, hops_longDirectory, FileTree.descend]
    rfl
  · apply FileTree.read_of_wayTo_error hname (by decide +kernel)
    rw [FileTree.wayTo, hstart, hops_longDirectory, FileTree.descend, if_neg (by decide)]
    simp only [hnode]
    rw [FileTree.descend, if_pos (by decide +kernel)]

/-- **A name that is too long spoils what was missing**, if the directory above it is left
behind. -/
theorem refused_save_spoils_long_name :
    let r : SaveRecord := ⟨1, 2, 3, 4, 5⟩
    IsPlain longDirectory Cache.emptyDisk ∧
      save longDirectory [] r 0 Cache.emptyDisk = (freshDisk, .error (.disk .nameTooLong)) ∧
      readEntries longDirectory Cache.emptyDisk = .ok none ∧
      readEntries longDirectory freshDisk = .error (.disk .nameTooLong) ∧
      ¬ ShowsPart longDirectory [] r Cache.emptyDisk freshDisk := by
  intro r
  have hlength : longDirectory.components.length + 1 = 4 := by decide +kernel
  obtain ⟨hold, hnew⟩ := read_longDirectory (isFileName_of_mem (by decide) :
    (Bytes.ofText "entries.json").IsFileName)
  obtain ⟨hplain, hsave, -, hbefore, hafter, hpart⟩ := refused_save_of_made
    (hlength ▸ made_longDirectory) hold hnew (by decide) [] r 0
  exact ⟨hplain, hsave, hbefore, hafter, hpart⟩

/-! ## 5. Results that are nested too deep

A save writes every result, but a result is read only as deep as a document may be nested. -/

/-- Arrays within arrays. -/
def nested : Nat → Json
  | 0 => .null
  | n + 1 => .array [nested n]

theorem depth_nested (n : Nat) : (nested n).depth = n := by
  induction n with
  | zero => rfl
  | succ n ih => simp [nested, Json.depth, Json.itemsDepth, ih]

/-- **Entries one of which is nested too deep cannot be read back.** -/
theorem entries?_of_deep {e : Entry} (he : e ∈ es)
    (hdeep : Entry.maxResultDepth < e.result.depth) : entries? (entriesText es) = none := by
  have hnone : Entry.ofWritten? e.json.written = none := by
    rw [Entry.ofWritten?_json, Option.map_eq_none_iff, Option.eq_none_iff_forall_ne_some]
    intro u hu
    exact absurd (Json.depth_le_of_ofWritten? hu) (by omega)
  have hmem : e.json.written ∈ es.map fun e => e.json.written := List.mem_map_of_mem he
  have hitems := mapM_eq_none_of_mem hmem hnone
  rw [List.mapM_map] at hitems
  rw [entries?_entriesText]
  exact hitems

/-- **A save that succeeds spoils the entries** with a result that is nested too deep. -/
theorem deep_save_spoils_entries (e : Entry) :
    let dir := Path.ofText "/"
    let deep : Entry := { e with result := nested (Entry.maxResultDepth + 1) }
    let saved := save dir [deep] ⟨1, 2, 3, 4, 5⟩ 0 Cache.emptyDisk
    IsPlain dir Cache.emptyDisk ∧ Cache.emptyDisk.GoesStraight dir ∧ saved.2 = .ok () ∧
      readEntries dir Cache.emptyDisk = .ok none ∧
      ∃ fault, readEntries dir saved.1 = .error fault := by
  intro dir deep saved
  have hfree : ∀ name ∈ fileNames,
      Cache.emptyDisk.passage ((FileTree.maxLinks, ([] : Location)).2 ++ [name]) = none :=
    fun _ _ => rfl
  have hway := Cache.wayTo_root Cache.emptyDisk
  have hplain : IsPlain dir Cache.emptyDisk := isPlain_of_free (by decide) hway hfree
  have hsave : saved.2 = .ok () := save_of_free Cache.isTree_emptyDisk (by decide) hway hfree _ _ _
  have hread := (saved_of_save Cache.isTree_emptyDisk hplain hsave).read
  have hnone : entries? (entriesText [deep]) = none :=
    entries?_of_deep (List.mem_singleton_self deep) (by rw [depth_nested]; omega)
  have hhops : dir.hops = ([] : List Bytes).map .down := by decide
  refine ⟨hplain, FileTree.goesStraight_of_hops hhops (by decide) _, hsave, ?_, ?_⟩
  · have hfile : (Bytes.ofText "entries.json").IsFileName := isFileName_of_mem (by decide)
    have hmissing : Cache.emptyDisk.read (entriesFile dir) = .error .notFound := by
      rw [entriesFile, Path.ofText, FileTree.read, FileTree.find,
        FileTree.resolve_join_of_plain true hfile (isPlainName_of_free hway hfree (by decide))
          (by decide) hway]
      rfl
    rw [readEntries, hmissing]
  · rw [readEntries, hread]
    simp only [Bytes.text?_ofText, Option.bind_some, hnone]
    exact ⟨_, rfl⟩

end Archive
end AnalysisRunner
