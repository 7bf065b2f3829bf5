import AnalysisRunner.CommandLine.Run
import AnalysisRunner.Proofs.Cache.Encoded
import AnalysisRunner.Proofs.FileTree.Rewrite

/-!
# Cleaning a saved cache

Cleaning restores the saved cache, drops what is too old and saves the rest.  It saves only if
there is a record of the save that can be used; without one the disk is left as it is.  So after
a cleaning that succeeds nothing is too old, exactly if there was such a record or nothing was too
old before (`Host.clean_drops_expired_iff_recorded`).

The disk may be any, and each of the names of a save may be a link.  A save through links leaves
the entries where they belong, or the record in their place (`Archive.eq_of_read_saved`), and a
record is never read as entries.
-/

namespace AnalysisRunner

/-- Which file an entry is for, and when it was made. -/
def Entry.stamp (e : Entry) : String × UInt64 :=
  (e.key, e.created)

namespace Archive

variable {dir : Path} {disk : FileTree} {es es' : List Entry} {r : SaveRecord} {now : Nat}

/-! ## 1. What is read after a save -/

/-- A record is not read as entries. -/
theorem entries?_recordText (r : SaveRecord) : entries? (recordText r) = none := by
  rw [entries?, recordText, Json.ofText?_pretty]
  rfl

/-- Entries that are read are for the files, and of the times, of those that were written, in the
same order. -/
theorem map_stamp_of_entries? (h : entries? (entriesText es) = some es') :
    es'.map Entry.stamp = es.map Entry.stamp := by
  rw [entries?_entriesText] at h
  induction es generalizing es' with
  | nil =>
    obtain rfl := Option.some.inj h
    rfl
  | cons e es ih =>
    rw [List.mapM_cons] at h
    obtain ⟨first, hfirst, h⟩ := Option.bind_eq_some_iff.mp h
    obtain ⟨rest, hrest, h⟩ := Option.bind_eq_some_iff.mp h
    obtain rfl := Option.some.inj h
    rw [Entry.ofWritten?_json] at hfirst
    obtain ⟨result, -, rfl⟩ := Option.map_eq_some_iff.mp hfirst
    rw [List.map_cons, List.map_cons, ih hrest]
    rfl

theorem created_of_entries? (h : entries? (entriesText es) = some es') :
    ∀ e' ∈ es', ∃ e ∈ es, e'.created = e.created := by
  intro e' he'
  have hstamp : e'.stamp ∈ es.map Entry.stamp :=
    map_stamp_of_entries? h ▸ List.mem_map_of_mem he'
  obtain ⟨e, he, hsame⟩ := List.mem_map.mp hstamp
  exact ⟨e, he, (Prod.mk.inj hsame).2.symm⟩

/-- **What is in the place of the entries after a save is the entries or the record**, whichever
names are links. -/
theorem eq_of_read_saved (htree : disk.IsTree) (hsave : (save dir es r now disk).2 = .ok ())
    {bytes : Bytes} (hread : (save dir es r now disk).1.read (entriesFile dir) = .ok bytes) :
    bytes = Bytes.ofText (entriesText es) ∨ bytes = Bytes.ofText (recordText r) := by
  unfold save at hsave hread
  cases hrun : DiskStep.runAll now (saveSteps dir es r) disk with
  | mk disk' fault? =>
    rw [hrun] at hsave hread
    cases fault? with
    | some fault => cases hsave
    | none =>
      obtain ⟨made, hmade, hrun⟩ := runAll_cons_eq_none hrun
      obtain ⟨t₁, hwrite, hrun⟩ := runAll_cons_eq_none hrun
      obtain ⟨t₂, hrename, hrun⟩ := runAll_cons_eq_none hrun
      obtain ⟨t₃, hwrite', hrun⟩ := runAll_cons_eq_none hrun
      obtain ⟨t₄, hrename', hrun⟩ := runAll_cons_eq_none hrun
      obtain rfl : t₄ = disk' := (Prod.mk.inj hrun).1
      obtain ⟨loc, hentries⟩ := FileTree.rewritten_of_run (htree.makeDirectories hmade)
        (isFileName_of_mem (by decide)) (isFileName_of_mem (by decide)) (by decide) hwrite hrename
      obtain ⟨loc', hrecord⟩ := FileTree.rewritten_of_run hentries.isTree
        (isFileName_of_mem (by decide)) (isFileName_of_mem (by decide)) (by decide) hwrite' hrename'
      obtain ⟨way, place, modified, hway, harrives⟩ :=
        FileTree.exists_arrives_of_read (isFileName_of_mem (by decide)) hread
      obtain ⟨way', hway', rfl⟩ := hrecord.way
      rw [hrecord.location_eq hway, hentries.location_eq hway'] at harrives
      rcases hrecord.arrives harrives with hsame | hold
      · exact .inr hsame
      · exact .inl (hentries.holdsOnly _ hold)

/-- Whether all entries that are read in a directory are younger than a limit. -/
def OnlyYounger (dir : Path) (disk : FileTree) (now : UInt64) (limit : Nat) : Prop :=
  ∀ es, readEntries dir disk = .ok (some es) → ∀ e ∈ es, e.age now < limit

theorem onlyYounger_of_save (htree : disk.IsTree) (hsave : (save dir es r now disk).2 = .ok ())
    {clock : UInt64} {limit : Nat} (hes : ∀ e ∈ es, e.age clock < limit) :
    OnlyYounger dir (save dir es r now disk).1 clock limit := by
  intro es' hread e' he'
  obtain ⟨bytes, hbytes, hentries⟩ := readEntries_eq_ok_iff.mp hread
  rcases eq_of_read_saved htree hsave hbytes with rfl | rfl
  · rw [Bytes.text?_ofText, Option.bind_some] at hentries
    obtain ⟨e, he, hcreated⟩ := created_of_entries? hentries e' he'
    rw [Entry.age, hcreated]
    exact hes e he
  · rw [Bytes.text?_ofText, Option.bind_some, entries?_recordText] at hentries
    cases hentries

end Archive

/-! ## 2. The command -/

theorem Cache.age_lt_of_mem_cleanup {c : Cache} {now : UInt64} {e : Entry}
    (he : e ∈ (c.cleanup now).2.sortedEntries) : e.age now < c.options.lifetime.ticks := by
  obtain ⟨k, hk⟩ := Table.mem_values_iff.mp (mem_sortedEntries.mp he)
  rw [get?_cleanup, Option.filter_eq_some_iff] at hk
  simpa [Entry.isExpired] using hk.2

theorem Cache.options_of_load {c c' : Cache} {now : UInt64} {disk : FileTree} {n : Nat}
    (h : c.load now disk = (.ok n, c')) : c'.options = c.options := by
  have hloaded := c.options_load now disk
  rwa [h] at hloaded

namespace Host

/-- **What a cleaning does that succeeds**: without a record nothing, and with one it saves a cache
in which nothing is too old. -/
theorem cacheClean_cases {h : Host} {format : OutputFormat} {s : Settings}
    (hok : (h.cacheClean format s).error = none) :
    h.savedRecord s = none ∧ (h.cacheClean format s).disk = h.disk ∨
      (h.savedRecord s).isSome = true ∧ ∃ es r,
        (∀ e ∈ es, e.age h.now < s.cacheOptions.lifetime.ticks) ∧
        (Archive.save s.cache.directory es r h.now.toNat h.disk).2 = .ok () ∧
        (h.cacheClean format s).disk =
          (Archive.save s.cache.directory es r h.now.toNat h.disk).1 := by
  unfold cacheClean at hok ⊢
  rcases hload : (openCache s).load h.now h.disk with ⟨answer, c⟩
  cases answer with
  | error fault =>
    simp only [hload] at hok
    cases hok
  | ok restored =>
    have hoptions := Cache.options_of_load hload
    simp only [hload] at hok ⊢
    cases hrecord : h.savedRecord s with
    | none => exact .inl ⟨rfl, rfl⟩
    | some r =>
      rw [hrecord] at hok
      have hsaved : (c.cleanup h.now).2.save h.now h.disk = Archive.save s.cache.directory
          (c.cleanup h.now).2.sortedEntries ((c.cleanup h.now).2.record h.now)
            h.now.toNat h.disk := by
        have hoptions' : (c.cleanup h.now).2.options = (openCache s).options := hoptions
        rw [Cache.save, hoptions']
        rfl
      simp only [Option.map_some, Option.isSome_some, if_true, hsaved] at hok ⊢
      have hyoung : ∀ e ∈ (c.cleanup h.now).2.sortedEntries,
          e.age h.now < s.cacheOptions.lifetime.ticks := by
        intro e he
        have hage := Cache.age_lt_of_mem_cleanup he
        rwa [hoptions] at hage
      refine .inr ⟨trivial, (c.cleanup h.now).2.sortedEntries, (c.cleanup h.now).2.record h.now,
        hyoung, ?_⟩
      split at hok
      · cases hok
      · rename_i hsave
        rw [hsave]
        exact ⟨rfl, rfl⟩

theorem run_cacheClean {i : Invocation} {h : Host} {loaded : Settings.Loaded}
    (hclean : i.command = .cacheClean)
    (hload : Settings.load h.standard h.disk h.environment h.home i.config = .ok loaded)
    (backend : Backend) : i.run h backend = .done (h.cacheClean i.output loaded.settings) := by
  rw [Invocation.run, hclean]
  simp only [hload]

/-- **A cleaning that succeeds drops what is too old exactly if there is a record of the save**,
or there was nothing to drop.  The limit may be the lifetime in force or the lifetime that was
asked for, which is never shorter.  Without a record the disk is left as it is. -/
theorem clean_drops_expired_iff_recorded {i : Invocation} {h : Host} {backend : Backend}
    {loaded : Settings.Loaded} {result : CommandResult} (hclean : i.command = .cacheClean)
    (hload : Settings.load h.standard h.disk h.environment h.home i.config = .ok loaded)
    (hrun : i.run h backend = .done result) (hok : result.error = none) (htree : h.disk.IsTree) :
    let s := loaded.settings
    let dir := s.cache.directory
    (∀ limit, s.cacheOptions.lifetime.ticks ≤ limit →
      (Archive.OnlyYounger dir result.disk h.now limit ↔
        (h.savedRecord s).isSome = true ∨ Archive.OnlyYounger dir h.disk h.now limit)) ∧
      (h.savedRecord s = none → result.disk = h.disk) := by
  intro s dir
  obtain rfl := Course.done.inj ((run_cacheClean hclean hload backend).symm.trans hrun)
  rcases cacheClean_cases hok with ⟨hrecord, hdisk⟩ | ⟨hrecord, es, r, hyoung, hsave, hdisk⟩
  · refine ⟨fun limit _ => ?_, fun _ => hdisk⟩
    rw [hdisk, hrecord]
    simp
  · refine ⟨fun limit hlimit => iff_of_true ?_ (.inl hrecord), fun hnone => ?_⟩
    · rw [hdisk]
      exact Archive.onlyYounger_of_save htree hsave fun e he =>
        Nat.lt_of_lt_of_le (hyoung e he) hlimit
    · rw [hnone] at hrecord
      cases hrecord

/-! ## 3. A cache with and without its record

One entry is saved at the root, and it is more than a day old. -/

theorem error_cacheClean {h : Host} {s : Settings} {restored : Nat} {c : Cache}
    (hload : (openCache s).load h.now h.disk = (.ok restored, c))
    (hsave : (h.savedRecord s).isSome = true → ((c.cleanup h.now).2.save h.now h.disk).2 = .ok ())
    (format : OutputFormat) : (h.cacheClean format s).error = none := by
  unfold cacheClean
  simp only [hload, Option.isSome_map]
  cases hrecord : (h.savedRecord s).isSome with
  | false => rfl
  | true =>
    simp only [if_true, hsave hrecord]
    rfl

def staleEntry : Entry :=
  ⟨"a", "", "", .null, 0⟩

def unrecordedDisk : FileTree where
  nodes := Table.empty.insert [Bytes.ofText "entries.json"]
    (.file (Bytes.ofText (Archive.entriesText [staleEntry])) 0)

def recordedDisk : FileTree :=
  unrecordedDisk.put [Bytes.ofText "metadata.json"]
    (.file (Bytes.ofText (Archive.recordText ⟨0, 86400000, 1, 0, 0⟩)) 0)

/-- A host with a disk, whose cache is at the root. -/
def cleanedHost (disk : FileTree) : Host where
  disk
  environment name := if name = "SOLLINT_CACHE_DIR" then some "/" else none
  home := none
  processors := 1
  now := 90000000

def cleanInvocation : Invocation where
  output := .json
  config := none
  verbose := false
  command := .cacheClean

def cleanedSettings : Settings :=
  { Settings.standard 1 with
    cache := { (Settings.standard 1).cache with directory := .ofText "/" } }

theorem isTree_unrecordedDisk : unrecordedDisk.IsTree := by
  refine ⟨?_, rfl⟩
  intro loc name n hn
  have hloc : loc ++ [name] = [Bytes.ofText "entries.json"] := by
    rw [unrecordedDisk, Table.get?_insert] at hn
    split at hn
    · assumption
    · cases hn
  have hnil : loc = [] := by
    simpa using congrArg List.length hloc
  rw [hnil]
  rfl

theorem isTree_recordedDisk : recordedDisk.IsTree := by
  have hroot : unrecordedDisk.nodeAt? [] = some .directory := rfl
  refine isTree_unrecordedDisk.put hroot ?_
  intro hdir
  cases hdir

/-- Without a file of settings, the environment decides. -/
theorem load_of_overlay {h : Host} {s : Settings}
    (hfree : h.disk.nodes.get? (h.disk.base ++ [Bytes.ofText ".sollint.toml"]) = none)
    (hoverlay : Settings.overlay h.environment h.standard = s) (hfault : s.fault? = none) :
    Settings.load h.standard h.disk h.environment none none = .ok ⟨s, none⟩ := by
  have hhops : Settings.localFile.hops = [.down (Bytes.ofText ".sollint.toml")] := by decide
  have hwalk : h.disk.walk true FileTree.maxLinks h.disk.base
      [.down (Bytes.ofText ".sollint.toml")] =
        .ok (.vacant (h.disk.base ++ [Bytes.ofText ".sollint.toml"])) := by
    rw [FileTree.walk, if_neg (by decide)]
    simp [hfree]
  have hleads : h.disk.leads Settings.localFile = false := by
    have hempty : Settings.localFile.bytes.isEmpty = false := by decide
    have hnul : Settings.localFile.bytes.contains 0 = false := by decide
    have habsolute : Settings.localFile.isAbsolute = false := by decide
    rw [FileTree.leads, FileTree.find, FileTree.resolve, hempty, hnul, hhops, habsolute,
      Bool.true_or]
    simp [hwalk]
  have hfile : Settings.file? h.disk none none = .ok none := by
    rw [Settings.file?, hleads]
    rfl
  have hchecked : s.checked = .ok s := by
    rw [Settings.checked, hfault]
  simp only [Settings.load, bind, Except.bind, hfile, pure, Except.pure, hoverlay, hchecked]

theorem load_cleanedHost {disk : FileTree} (hbase : disk.base = [])
    (hfree : disk.nodes.get? [Bytes.ofText ".sollint.toml"] = none) :
    Settings.load (cleanedHost disk).standard disk (cleanedHost disk).environment none none =
      .ok ⟨cleanedSettings, none⟩ := by
  refine load_of_overlay (h := cleanedHost disk) ?_ rfl (by decide)
  show disk.nodes.get? (disk.base ++ _) = none
  rw [hbase]
  exact hfree

theorem readEntries_of_file {disk : FileTree}
    (hfile : disk.nodes.get? [Bytes.ofText "entries.json"] =
    some (.file (Bytes.ofText (Archive.entriesText [staleEntry])) 0)) :
    Archive.readEntries (.ofText "/") disk = .ok (some [staleEntry]) := by
  refine Archive.readEntries_of_read (FileTree.read_of_file
    (Archive.isFileName_of_mem (by decide)) (by decide) (Cache.wayTo_root _) hfile) ?_
  refine Archive.entries?_of_readsBack ?_
  rw [List.forall_mem_singleton]
  rfl

/-- Cleaning succeeds on a disk that holds the entry. -/
theorem exists_cleaned {disk : FileTree} (htree : disk.IsTree) (hbase : disk.base = [])
    (hsettings : disk.nodes.get? [Bytes.ofText ".sollint.toml"] = none)
    (hfile : disk.nodes.get? [Bytes.ofText "entries.json"] =
      some (.file (Bytes.ofText (Archive.entriesText [staleEntry])) 0))
    (hnames : ∀ name ∈ Archive.fileNames, disk.passage [name] = none) (backend : Backend) :
    ∃ result, cleanInvocation.run (cleanedHost disk) backend = .done result ∧
      result.error = none := by
  have hload := Cache.load_of_readEntries (c := openCache cleanedSettings) rfl
    (readEntries_of_file hfile) 90000000
  refine ⟨_, run_cacheClean rfl (load_cleanedHost hbase hsettings) backend, ?_⟩
  refine error_cacheClean hload (fun _ => ?_) _
  exact Archive.save_of_free htree (by decide) (Cache.wayTo_root _) hnames _ _ _

theorem readRecord_recordedDisk :
    Archive.readRecord (.ofText "/") recordedDisk = some ⟨0, 86400000, 1, 0, 0⟩ :=
  Archive.readRecord_of_read (FileTree.read_of_file (Archive.isFileName_of_mem (by decide))
    (by decide) (Cache.wayTo_root _) rfl)

theorem readRecord_unrecordedDisk : Archive.readRecord (.ofText "/") unrecordedDisk = none := by
  have hplain : unrecordedDisk.IsPlainName (.ofText "/") (Bytes.ofText "metadata.json") := by
    intro r target hway
    obtain rfl := Except.ok.inj ((Cache.wayTo_root unrecordedDisk).symm.trans hway)
    exact nofun
  have hresolve : unrecordedDisk.resolve true (Archive.recordFile (.ofText "/")) =
      .ok (.vacant [Bytes.ofText "metadata.json"]) :=
    FileTree.resolve_join_of_plain true (Archive.isFileName_of_mem (by decide)) hplain (by decide)
      (Cache.wayTo_root unrecordedDisk)
  have hread : unrecordedDisk.read (Archive.recordFile (.ofText "/")) = .error .notFound := by
    rw [FileTree.read, FileTree.find, hresolve]
    rfl
  rw [Archive.readRecord, hread]

/-- The entry is dropped if there is a record and stays if there is none, although both cleanings
succeed. -/
theorem clean_drops_expired_iff_recorded_stale :
    let backend : Backend := ⟨none, none, fun _ => none⟩
    (∃ result, cleanInvocation.run (cleanedHost recordedDisk) backend = .done result ∧
      result.error = none ∧ Archive.OnlyYounger (.ofText "/") result.disk 90000000 86400000) ∧
    ∃ result, cleanInvocation.run (cleanedHost unrecordedDisk) backend = .done result ∧
      result.error = none ∧
      Archive.readEntries (.ofText "/") result.disk = .ok (some [staleEntry]) ∧
      ¬ Archive.OnlyYounger (.ofText "/") result.disk 90000000 86400000 := by
  intro backend
  have hticks : cleanedSettings.cacheOptions.lifetime.ticks ≤ 86400000 := by decide
  constructor
  · obtain ⟨result, hrun, hok⟩ := exists_cleaned isTree_recordedDisk rfl rfl rfl (by decide) backend
    refine ⟨result, hrun, hok, ?_⟩
    obtain ⟨hiff, -⟩ := clean_drops_expired_iff_recorded rfl (load_cleanedHost rfl rfl) hrun hok
      isTree_recordedDisk
    exact (hiff _ hticks).mpr (.inl (Option.isSome_iff_exists.mpr ⟨_, readRecord_recordedDisk⟩))
  · obtain ⟨result, hrun, hok⟩ :=
      exists_cleaned isTree_unrecordedDisk rfl rfl rfl (by decide) backend
    obtain ⟨hiff, hdisk⟩ := clean_drops_expired_iff_recorded rfl (load_cleanedHost rfl rfl) hrun hok
      isTree_unrecordedDisk
    have hentries : Archive.readEntries (.ofText "/") unrecordedDisk = .ok (some [staleEntry]) :=
      readEntries_of_file rfl
    refine ⟨result, hrun, hok, ?_, ?_⟩
    · rw [hdisk readRecord_unrecordedDisk]
      exact hentries
    · intro hyoung
      rcases (hiff _ hticks).mp hyoung with hrecord | hbefore
      · cases hrecord.symm.trans (congrArg Option.isSome readRecord_unrecordedDisk)
      · exact absurd (hbefore _ hentries staleEntry (List.mem_singleton.mpr rfl)) (by decide)

end Host
end AnalysisRunner
