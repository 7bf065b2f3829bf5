import AnalysisRunner.Proofs.Cache.Archived
import AnalysisRunner.Proofs.FileTree.Making

/-!
# A saved directory holds what was saved

When a save succeeds, the directory is read as the entries that were saved
(`Archive.saved_of_save`).  Two things are needed for that.

* The results read back in the place where they stand.  That place is two levels down in a
  document, so a value that is nested almost too deep reads back on its own and not there:
  `Json.ReadsBackWithin` counts the levels that are left.
* The names that a save uses are no links, once the directory is there: `Archive.IsPlain`.  A
  draft that is a link would be written through, and the link moved into place.  In a
  directory that is new or that was only ever saved to, the names are free or files, and a
  save keeps it so.
-/

namespace AnalysisRunner

/-! ## 1. Entries that read back -/

/-- Whether a value reads back where a number of levels is left. -/
def Json.ReadsBackWithin (d : Nat) (v : Json) : Prop :=
  ofWritten? d v.written = some v

/-- Whether an entry reads back. -/
def Entry.ReadsBack (e : Entry) : Prop :=
  e.result.ReadsBackWithin maxResultDepth

namespace Archive

variable {dir : Path} {disk disk' : FileTree} {es : List Entry}

theorem entries?_of_readsBack (h : ∀ e ∈ es, e.ReadsBack) :
    entries? (entriesText es) = some es := by
  rw [entries?_entriesText]
  induction es with
  | nil => rfl
  | cons e es ih =>
    have he : Json.ofWritten? Entry.maxResultDepth e.result.written = some e.result :=
      h e (List.mem_cons_self ..)
    rw [List.mapM_cons, Entry.ofWritten?_json, he, ih fun e he => h e (List.mem_cons_of_mem _ he)]
    rfl

/-- Whether a directory is read as entries, a directory without a file of entries as none. -/
def Stores (dir : Path) (disk : FileTree) (es : List Entry) : Prop :=
  readEntries dir disk = .ok none ∧ es = [] ∨ readEntries dir disk = .ok (some es)

theorem stores_of_notFound (h : disk.read (entriesFile dir) = .error .notFound) :
    Stores dir disk [] := by
  left
  rw [readEntries, h]
  exact ⟨rfl, rfl⟩

theorem stores_of_read (h : disk.read (entriesFile dir) = .ok (Bytes.ofText (entriesText es)))
    (hes : ∀ e ∈ es, e.ReadsBack) : Stores dir disk es := by
  refine .inr (readEntries_eq_ok_iff.mpr ⟨_, h, ?_⟩)
  rw [Bytes.text?_ofText, Option.bind_some, entries?_of_readsBack hes]

/-- Only the file of the entries counts. -/
theorem Stores.congr (h : Stores dir disk es)
    (hsame : disk'.read (entriesFile dir) = disk.read (entriesFile dir)) : Stores dir disk' es := by
  rwa [Stores, readEntries, hsame]

/-- Whether nothing was saved to a directory, or the entries of a cache that read back. -/
def IsSaved (dir : Path) (disk : FileTree) : Prop :=
  disk.read (entriesFile dir) = .error .notFound ∨
    ∃ saver : Cache, saver.Holds Entry.ReadsBack ∧
      disk.read (entriesFile dir) = .ok (Bytes.ofText (entriesText saver.sortedEntries))

/-! ## 2. The names of a save -/

/-- The names that a save uses: the two files, and their drafts. -/
def fileNames : List Bytes :=
  ["entries.json", "entries.json.tmp", "metadata.json", "metadata.json.tmp"].map Bytes.ofText

theorem isFileName_of_mem {name : Bytes} (h : name ∈ fileNames) : name.IsFileName := by
  have hall : ∀ name ∈ fileNames,
      (Component.name name).IsInner ∧ 0 ∉ name ∧ name.length ≤ FileTree.maxNameLength := by
    unfold Component.IsInner
    decide
  obtain ⟨inner, noNul, short⟩ := hall name h
  exact ⟨inner, noNul, short⟩

/-- Whether none of the names of a save is a link, once the directory is there. -/
def IsPlain (dir : Path) (disk : FileTree) : Prop :=
  ∀ made, disk.makeDirectories dir = .ok made → ∀ name ∈ fileNames, made.IsPlainName dir name

/-- Steps that are all done are done one after the other. -/
theorem runAll_cons_eq_none {now : Nat} {step : DiskStep} {rest : List DiskStep}
    (h : DiskStep.runAll now (step :: rest) disk = (disk', none)) :
    ∃ mid, step.run now disk = .ok mid ∧ DiskStep.runAll now rest mid = (disk', none) := by
  rw [DiskStep.runAll] at h
  cases hstep : step.run now disk with
  | error fault =>
    rw [hstep] at h
    cases h
  | ok mid =>
    rw [hstep] at h
    exact ⟨mid, rfl, h⟩

section Succeeded

variable {r : SaveRecord} {now : Nat} (htree : disk.IsTree) (hplain : IsPlain dir disk)
  (hsave : (save dir es r now disk).2 = .ok ())

include htree hplain hsave

/-- **A save that succeeds replaces the file of the entries and then the file of the record.** -/
theorem replaced_of_save : ∃ made mid way, disk.makeDirectories dir = .ok made ∧
    FileTree.Replaced made mid dir way (Bytes.ofText "entries.json.tmp")
      (Bytes.ofText "entries.json") (Bytes.ofText (entriesText es)) now ∧
    FileTree.Replaced mid (save dir es r now disk).1 dir way (Bytes.ofText "metadata.json.tmp")
      (Bytes.ofText "metadata.json") (Bytes.ofText (recordText r)) now := by
  unfold save at hsave ⊢
  cases hrun : DiskStep.runAll now (saveSteps dir es r) disk with
  | mk disk' fault? =>
    rw [hrun] at hsave
    cases fault? with
    | some fault => cases hsave
    | none =>
      obtain ⟨made, hmade, hrun⟩ := runAll_cons_eq_none hrun
      obtain ⟨t₁, hwrite, hrun⟩ := runAll_cons_eq_none hrun
      obtain ⟨t₂, hrename, hrun⟩ := runAll_cons_eq_none hrun
      obtain ⟨t₃, hwrite', hrun⟩ := runAll_cons_eq_none hrun
      obtain ⟨t₄, hrename', hrun⟩ := runAll_cons_eq_none hrun
      obtain rfl : t₄ = disk' := (Prod.mk.inj hrun).1
      have hnames := hplain made hmade
      obtain ⟨way, hentries⟩ := FileTree.replaced_of_run (htree.makeDirectories hmade)
        (isFileName_of_mem (by decide)) (isFileName_of_mem (by decide)) (by decide)
        (hnames _ (by decide)) (hnames _ (by decide)) hwrite hrename
      obtain ⟨way', hrecord⟩ := FileTree.replaced_of_run hentries.isTree
        (isFileName_of_mem (by decide)) (isFileName_of_mem (by decide)) (by decide)
        (hentries.isPlainName (hnames _ (by decide))) (hentries.isPlainName (hnames _ (by decide)))
        hwrite' hrename'
      obtain rfl : way = way' := Except.ok.inj (hentries.way'.symm.trans hrecord.way)
      exact ⟨made, t₂, way, hmade, hentries, hrecord⟩

/-- A save that succeeds leaves both files in the directory. -/
theorem files_of_save : ∃ way, dir.bytes.contains 0 = false ∧
    (save dir es r now disk).1.wayTo dir = .ok way ∧
    (save dir es r now disk).1.nodes.get? (way.2 ++ [Bytes.ofText "entries.json"]) =
      some (.file (Bytes.ofText (entriesText es)) now) ∧
    (save dir es r now disk).1.nodes.get? (way.2 ++ [Bytes.ofText "metadata.json"]) =
      some (.file (Bytes.ofText (recordText r)) now) := by
  obtain ⟨made, mid, way, -, hentries, hrecord⟩ := replaced_of_save htree hplain hsave
  refine ⟨way, hrecord.nul, hrecord.way', ?_, ?_⟩
  · -- the record and its draft have other names
    rw [hrecord.get?, if_neg (by simp; decide), if_neg (by simp; decide), hentries.get?, if_pos rfl]
  · rw [hrecord.get?, if_pos rfl]

end Succeeded

/-- What a save leaves. -/
structure Saved (dir : Path) (disk : FileTree) (es : List Entry) : Prop where
  isTree : disk.IsTree
  isPlain : IsPlain dir disk
  read : disk.read (entriesFile dir) = .ok (Bytes.ofText (entriesText es))

/-- **A save that succeeds leaves the entries in their file.** -/
theorem saved_of_save {r : SaveRecord} {now : Nat} (htree : disk.IsTree) (hplain : IsPlain dir disk)
    (hsave : (save dir es r now disk).2 = .ok ()) : Saved dir (save dir es r now disk).1 es := by
  obtain ⟨made, mid, way, hmade, hentries, hrecord⟩ := replaced_of_save htree hplain hsave
  obtain ⟨way', hnul, hway', hfile, -⟩ := files_of_save htree hplain hsave
  refine ⟨hrecord.isTree, ?_, ?_⟩
  · intro again hagain name hname
    rw [FileTree.makeDirectories_of_wayTo hrecord.nul hrecord.way'] at hagain
    rw [← Except.ok.inj hagain]
    exact hrecord.isPlainName (hentries.isPlainName (hplain made hmade name hname))
  · exact FileTree.read_of_file (isFileName_of_mem (by decide)) hnul hway' hfile

section Free

variable {way : Nat × Location} (htree : disk.IsTree) (hnul : dir.bytes.contains 0 = false)
  (hway : disk.wayTo dir = .ok way)
  (hfree : ∀ name ∈ fileNames, disk.passage (way.2 ++ [name]) = none)

include hway hfree

theorem isPlainName_of_free {name : Bytes} (hname : name ∈ fileNames) :
    disk.IsPlainName dir name := by
  intro r target hway' hlink
  rw [← Except.ok.inj (hway.symm.trans hway')] at hlink
  have hpassage := FileTree.passage_eq_some_iff.mpr ⟨hlink, rfl⟩
  rw [hfree name hname] at hpassage
  cases hpassage

include hnul

theorem isPlain_of_free : IsPlain dir disk := by
  intro made hmade name hname
  rw [FileTree.makeDirectories_of_wayTo hnul hway] at hmade
  rw [← Except.ok.inj hmade]
  exact isPlainName_of_free hway hfree hname

include htree

/-- **A save succeeds** in a directory that is there, if none of its names is taken by a
directory or a link. -/
theorem save_of_free (es : List Entry) (r : SaveRecord) (now : Nat) :
    (save dir es r now disk).2 = .ok () := by
  have hnames : ∀ name ∈ fileNames, disk.IsPlainName dir name := fun _ =>
    isPlainName_of_free hway hfree
  have hdir : ∀ name ∈ fileNames, disk.nodes.get? (way.2 ++ [name]) ≠ some .directory := by
    intro name hname hdir
    have hpassage := FileTree.passage_eq_some_iff.mpr ⟨hdir, rfl⟩
    rw [hfree name hname] at hpassage
    cases hpassage
  obtain ⟨t₁, t₂, hwrite, hrename⟩ := FileTree.exists_replacement htree
    (isFileName_of_mem (by decide)) (isFileName_of_mem (by decide)) (by decide)
    (hnames (Bytes.ofText "entries.json.tmp") (by decide))
    (hnames (Bytes.ofText "entries.json") (by decide)) hnul hway
    (hdir _ (by decide)) (hdir _ (by decide)) (Bytes.ofText (entriesText es)) now
  obtain ⟨way', hentries⟩ := FileTree.replaced_of_run htree
    (isFileName_of_mem (by decide)) (isFileName_of_mem (by decide)) (by decide)
    (hnames _ (by decide)) (hnames _ (by decide)) hwrite hrename
  obtain rfl : way = way' := Except.ok.inj (hway.symm.trans hentries.way)
  obtain ⟨t₃, t₄, hwrite', hrename'⟩ := FileTree.exists_replacement hentries.isTree
    (isFileName_of_mem (by decide)) (isFileName_of_mem (by decide)) (by decide)
    (hentries.isPlainName (hnames (Bytes.ofText "metadata.json.tmp") (by decide)))
    (hentries.isPlainName (hnames (Bytes.ofText "metadata.json") (by decide))) hnul
    hentries.way'
    (by
      rw [hentries.get?, if_neg (by simp; decide), if_neg (by simp; decide)]
      exact hdir _ (by decide))
    (by
      rw [hentries.get?, if_neg (by simp; decide), if_neg (by simp; decide)]
      exact hdir _ (by decide))
    (Bytes.ofText (recordText r)) now
  have hmade : DiskStep.run now disk (.makeDirectories dir) = .ok disk :=
    FileTree.makeDirectories_of_wayTo hnul hway
  have hrun : DiskStep.runAll now (saveSteps dir es r) disk = (t₄, none) := by
    simp only [saveSteps, DiskStep.runAll, hmade]
    simp only [DiskStep.run, entriesDraft, entriesFile, recordDraft,
      recordFile, Path.ofText, hwrite, hrename, hwrite', hrename']
  rw [save, hrun]

end Free

end Archive

theorem Cache.saved_of_save {c : Cache} {now : UInt64} {disk : FileTree}
    (hpersistent : c.options.persistent = true) (htree : disk.IsTree)
    (hplain : Archive.IsPlain c.options.directory disk) (hsave : (c.save now disk).2 = .ok ()) :
    Archive.Saved c.options.directory (c.save now disk).1 c.sortedEntries := by
  rw [save, if_pos hpersistent] at hsave ⊢
  exact Archive.saved_of_save htree hplain hsave

end AnalysisRunner
