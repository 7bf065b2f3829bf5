import Mathlib.Algebra.Group.Nat.Defs
import AnalysisRunner.Proofs.CommandLine.Cleaned

/-!
# What a cleaning reports

Cleaning a saved cache reports two numbers, how many entries it removed and how many remain.  The
first is put together from three places: the record of the save says how many entries there were,
loading says how many of them are still good, and the cleaning itself finds no more that are too
old, because loading has left these out.

Between the two, loading lets the cache shrink to its capacity, and what goes then is reported
neither as removed nor as remaining.  So the report adds up to what there was exactly if the
entries that are still good fit (`Host.clean_report_adds_up_iff_fits`).  What remains is always
what is on disk afterwards.
-/

namespace AnalysisRunner

/-! ## 1. How many entries a file holds -/

namespace Archive

variable {dir dir' : Path} {disk : FileTree} {es es' : List Entry}

/-- The number of items of a text that is a list. -/
def itemCount? (text : String) : Option Nat := do
  match ← Written.ofText? text with
  | .array items => some items.length
  | _ => none

/-- How many items there are in the file of the entries, if it is a list. -/
def held? (dir : Path) (disk : FileTree) : Option Nat :=
  match disk.read (entriesFile dir) with
  | .error _ => none
  | .ok content => content.text?.bind itemCount?

theorem itemCount?_entriesText (es : List Entry) :
    itemCount? (entriesText es) = some es.length := by
  have hlength : ∀ vs : List Json, (Json.writtenItems vs).length = vs.length := by
    intro vs
    induction vs with
    | nil => rfl
    | cons v vs ih => rw [Json.writtenItems, List.length_cons, ih, List.length_cons]
  unfold itemCount? entriesText
  rw [Json.ofText?_compact, Json.written]
  show some (Json.writtenItems (es.map Entry.json)).length = _
  rw [hlength, List.length_map]

theorem held?_of_read (h : disk.read (entriesFile dir) = .ok (Bytes.ofText (entriesText es))) :
    held? dir disk = some es.length := by
  rw [held?, h]
  dsimp only
  rw [Bytes.text?_ofText, Option.bind_some, itemCount?_entriesText]

/-- **What was saved is found by every path that leads to the directory**, and can be saved to by
it again. -/
theorem saved_through {r : SaveRecord} {now : Nat} (htree : disk.IsTree) (hplain : IsPlain dir disk)
    (hsave : (save dir es r now disk).2 = .ok ())
    (hsame : ∀ place, (save dir es r now disk).1.LeadsTo dir place →
      (save dir es r now disk).1.LeadsTo dir' place) :
    Saved dir' (save dir es r now disk).1 es ∧
      readRecord dir' (save dir es r now disk).1 = some r := by
  obtain ⟨way, hnul, hway, hentries, hrecord⟩ := files_of_save htree hplain hsave
  obtain ⟨hnul', links, hway'⟩ := hsame way.2 ⟨hnul, way.1, hway⟩
  obtain ⟨isTree, isPlain, -⟩ := saved_of_save htree hplain hsave
  refine ⟨⟨isTree, ?_, ?_⟩, readRecord_of_read ?_⟩
  · intro made hmade name hname way'' target hway''
    rw [FileTree.makeDirectories_of_wayTo hnul' hway'] at hmade
    obtain rfl := Except.ok.inj hmade
    obtain rfl := Except.ok.inj (hway'.symm.trans hway'')
    exact isPlain _ (FileTree.makeDirectories_of_wayTo hnul hway) name hname way target hway
  · exact FileTree.read_of_file (isFileName_of_mem (by decide)) hnul' hway' hentries
  · exact FileTree.read_of_file (isFileName_of_mem (by decide)) hnul' hway' hrecord

/-- Which saved entries are too old can be told from those that are read. -/
theorem countP_isExpired_of_entries? (h : entries? (entriesText es) = some es') (now : UInt64)
    (lifetime : Duration) :
    (es'.countP fun e => !e.isExpired now lifetime) =
      es.countP fun e => !e.isExpired now lifetime := by
  have hstamp : ∀ es : List Entry, (es.countP fun e => !e.isExpired now lifetime) =
      (es.map Entry.stamp).countP fun stamp =>
        !decide (lifetime.ticks ≤ now.toNat - stamp.2.toNat) := by
    intro es
    rw [List.countP_map]
    rfl
  rw [hstamp, hstamp, map_stamp_of_entries? h]

theorem map_key_of_entries? (h : entries? (entriesText es) = some es') :
    es'.map Entry.key = es.map Entry.key := by
  have hfst := congrArg (List.map Prod.fst) (map_stamp_of_entries? h)
  rwa [List.map_map, List.map_map] at hfst

end Archive

/-! ## 2. Loading into a cache with nothing in it -/

namespace Cache

variable {c : Cache} {options : CacheOptions} {now : UInt64} {es : List Entry}
  {r : Option SaveRecord}

/-- **A cache that is restored from nothing holds what is still good, as far as there is room.** -/
theorem size_restore_new (hkeys : (es.map Entry.key).Nodup) :
    ((new options).restore now es r).size =
      min ((new options).fresh now es).length (new options).options.capacity := by
  have hmerged : ((new options).merged now es r).size = ((new options).fresh now es).length := by
    have hperm := Table.keys_foldl_insert Entry.key id ((new options).fresh now es) .empty
      (hkeys.sublist (List.filter_sublist.map _)) fun _ _ hmem => by cases hmem
    have hlength := hperm.length_eq
    rw [← Table.size_eq, List.length_append, List.length_map] at hlength
    exact hlength
  have hfiled := filed_merged (holds_new options fun _ => True) now es r
  have hevict := hfiled.size_evict_add none
  have hoverflow := hfiled.length_overflow (Nat.le_max_right _ _) none
  have hcapacity : ((new options).merged now es r).options.capacity =
      (new options).options.capacity := rfl
  rw [restore_eq]
  omega

theorem young_of_restore_new {k : String} {e : Entry}
    (h : ((new options).restore now es r).entries.get? k = some e) :
    e.isExpired now (new options).options.lifetime = false := by
  rw [restore_eq, get?_evict] at h
  split at h
  · cases h
  · rcases Table.get?_foldl_insert_cases Entry.key id h with ⟨f, hf, -, rfl⟩ | hempty
    · exact (mem_fresh.mp hf).2
    · cases hempty

theorem length_sortedEntries (c : Cache) : c.sortedEntries.length = c.size := by
  rw [c.perm_sortedEntries.length_eq, ← c.size_eq_length_values]

/-- Cleaning drops nothing if nothing is too old. -/
theorem cleanup_of_young
    (h : ∀ k e, c.entries.get? k = some e → e.isExpired now c.options.lifetime = false) :
    (c.cleanup now).1 = 0 ∧ (c.cleanup now).2.size = c.size := by
  have hkept : (c.entries.filter fun _ e => !e.isExpired now c.options.lifetime).size =
      c.entries.size := by
    refine congrArg List.length (List.filter_eq_self.mpr fun entry hentry => ?_)
    dsimp only
    rw [h entry.1 entry.2 (Table.get?_eq_some_iff.mpr hentry)]
    rfl
  refine ⟨?_, hkept⟩
  show c.entries.size - (c.entries.filter fun _ e => !e.isExpired now c.options.lifetime).size = 0
  rw [hkept, Nat.sub_self]

end Cache

/-! ## 3. The report -/

namespace Host

/-- What a cleaning shows. -/
def cleanJson (s : Settings) (removed remaining : Nat) : Json :=
  .object
    [("directory", .string s.cache.directory.shown),
     ("removed", .ofNat removed),
     ("remaining", .ofNat remaining)]

/-- What a cleaning does that succeeds, if there is a record. -/
theorem cacheClean_of_record {h : Host} {format : OutputFormat} {s : Settings} {record : SaveRecord}
    {restored : Nat} {c : Cache} (hload : (openCache s).load h.now h.disk = (.ok restored, c))
    (hrecord : h.savedRecord s = some record) (hok : (h.cacheClean format s).error = none) :
    ((c.cleanup h.now).2.save h.now h.disk).2 = .ok () ∧
      h.cacheClean format s = h.shown format ((c.cleanup h.now).2.save h.now h.disk).1
        (cleanJson s ((c.cleanup h.now).1 + (record.count.toNat - restored))
          (c.cleanup h.now).2.size) := by
  unfold cacheClean at hok ⊢
  simp only [hload, hrecord, Option.map_some, Option.isSome_some, if_true,
    Option.getD_some] at hok ⊢
  split at hok
  · cases hok
  · rename_i hsave
    rw [hsave]
    exact ⟨rfl, rfl⟩

/-- **What loading finds in a directory that was saved to.** -/
theorem load_saved {saver : Cache} {s : Settings} {disk : FileTree} {now : UInt64} {restored : Nat}
    {c : Cache} (hsaver : saver.Fits)
    (hread : disk.read (Archive.entriesFile s.cache.directory) =
      .ok (Bytes.ofText (Archive.entriesText saver.sortedEntries)))
    (hload : (openCache s).load now disk = (.ok restored, c)) :
    restored = (saver.entries.values.countP fun e => !e.isExpired now s.cacheOptions.lifetime) ∧
      c.size = min restored (openCache s).options.capacity ∧
      ∀ k e, c.entries.get? k = some e → e.isExpired now c.options.lifetime = false := by
  have hoptions := Cache.options_of_load hload
  have hpersistent : (openCache s).options.persistent = true := rfl
  have hdirectory : (openCache s).options.directory = s.cache.directory := rfl
  rw [Cache.load, if_pos hpersistent, Archive.readEntries, hdirectory, hread] at hload
  dsimp only at hload
  rw [Bytes.text?_ofText, Option.bind_some] at hload
  cases hes : Archive.entries? (Archive.entriesText saver.sortedEntries) with
  | none =>
    rw [hes] at hload
    cases hload
  | some es =>
    rw [hes] at hload
    obtain ⟨hcount, rfl⟩ := Prod.mk.inj hload
    obtain rfl := Except.ok.inj hcount
    have hkeys : (es.map Entry.key).Nodup := by
      rw [Archive.map_key_of_entries? hes, (saver.perm_sortedEntries.map Entry.key).nodup_iff]
      exact hsaver.filed.nodup_values
    refine ⟨?_, Cache.size_restore_new hkeys, fun k e he => ?_⟩
    · rw [Cache.fresh, ← List.countP_eq_length_filter,
        Archive.countP_isExpired_of_entries? hes, saver.perm_sortedEntries.countP_eq]
      rfl
    · rw [hoptions]
      exact Cache.young_of_restore_new he

/-- **What a cleaning that succeeds reports about a directory that was saved to.** -/
theorem cacheClean_saved {saver : Cache} {savedAt : UInt64} {h : Host} {format : OutputFormat}
    {s : Settings} (hsaver : saver.Fits) (hsize : saver.size < 2 ^ 64)
    (hsaved : Archive.Saved s.cache.directory h.disk saver.sortedEntries)
    (hrecord : h.savedRecord s = some (saver.record savedAt))
    (hok : (h.cacheClean format s).error = none) {good room : Nat}
    (hgood : good = saver.entries.values.countP fun e => !e.isExpired h.now s.cacheOptions.lifetime)
    (hroom : room = (openCache s).options.capacity) :
    (h.cacheClean format s).lines =
        format.lines h.styled (cleanJson s (saver.size - good) (min good room)) ∧
      Archive.held? s.cache.directory (h.cacheClean format s).disk = some (min good room) := by
  rcases hload : (openCache s).load h.now h.disk with ⟨answer, c⟩
  cases answer with
  | error fault =>
    unfold cacheClean at hok
    rw [hload] at hok
    cases hok
  | ok restored =>
    obtain ⟨hrestored, hc, hyoung⟩ := load_saved hsaver hsaved.read hload
    obtain ⟨hdropped, hkept⟩ := Cache.cleanup_of_young hyoung
    obtain ⟨hsave, hshown⟩ := cacheClean_of_record hload hrecord hok
    have hloaded := Cache.options_of_load hload
    have hoptions : (c.cleanup h.now).2.options = (openCache s).options := hloaded
    have hplain : Archive.IsPlain (c.cleanup h.now).2.options.directory h.disk := by
      rw [hoptions]
      exact hsaved.isPlain
    have hafter := Cache.saved_of_save (hoptions ▸ rfl) hsaved.isTree hplain hsave
    rw [hoptions] at hafter
    have hcount : (saver.record savedAt).count.toNat = saver.size := Nat.mod_eq_of_lt hsize
    have hremaining : (c.cleanup h.now).2.size = min good room := by
      rw [hkept, hc, hrestored, hgood, hroom]
    rw [hshown, hremaining, hdropped, hcount, hrestored, ← hgood, Nat.zero_add]
    refine ⟨rfl, (Archive.held?_of_read hafter.read).trans ?_⟩
    rw [Cache.length_sortedEntries, hremaining]

/-- **What a cleaning reports adds up exactly if the entries that are still good fit.**  A cache
was saved successfully, to a directory in which the names of a save are no links, and then the
directory is cleaned successfully, under any settings and at any time.  Then what is reported as
removed are the entries that are too old, and what remains are the others, as far as there is
room.  As many as remain are on disk afterwards.  Those that there is no room for are gone, and
they are not reported. -/
theorem clean_report_adds_up_iff_fits {saver : Cache} {savedAt : UInt64} {disk : FileTree}
    {i : Invocation} {h : Host} {backend : Backend} {loaded : Settings.Loaded}
    {result : CommandResult} (hsaver : saver.Reachable)
    (hpersistent : saver.options.persistent = true) (hsize : saver.size < 2 ^ 64)
    (htree : disk.IsTree) (hplain : Archive.IsPlain saver.options.directory disk)
    (hsave : (saver.save savedAt disk).2 = .ok ()) (hdisk : h.disk = (saver.save savedAt disk).1)
    (hclean : i.command = .cacheClean)
    (hload : Settings.load h.standard h.disk h.environment h.home i.config = .ok loaded)
    (hsame : ∀ place, h.disk.LeadsTo saver.options.directory place →
      h.disk.LeadsTo loaded.settings.cache.directory place)
    (hrun : i.run h backend = .done result) (hok : result.error = none) :
    let s := loaded.settings
    let dir := s.cache.directory
    let good := saver.entries.values.countP fun e => !e.isExpired h.now s.cacheOptions.lifetime
    let room := (openCache s).options.capacity
    ∃ removed remaining,
      result.lines = i.output.lines h.styled (cleanJson s removed remaining) ∧
        Archive.held? dir h.disk = some saver.size ∧
        Archive.held? dir result.disk = some remaining ∧
        removed = saver.size - good ∧ remaining = min good room ∧
        (removed + remaining = saver.size ↔ good ≤ room) := by
  intro s dir good room
  obtain rfl := Course.done.inj ((run_cacheClean hclean hload backend).symm.trans hrun)
  rw [Cache.save, if_pos hpersistent] at hsave hdisk
  rw [hdisk] at hsame
  obtain ⟨hsaved, hrecord⟩ := Archive.saved_through htree hplain hsave hsame
  rw [← hdisk] at hsaved hrecord
  obtain ⟨hlines, hheld⟩ := cacheClean_saved hsaver.fits hsize hsaved hrecord hok rfl rfl
  have hgood : good ≤ saver.size := by
    rw [saver.size_eq_length_values]
    exact List.countP_le_length
  refine ⟨saver.size - good, min good room, hlines, ?_, hheld, rfl, rfl, ?_⟩
  · rw [Archive.held?_of_read hsaved.read, Cache.length_sortedEntries]
  · omega

/-! ## 4. Two entries, and room for one

Both entries of the lending cache are saved at the root, and the cache that cleans them is set up
to hold one. -/

/-- The disk with the two entries. -/
def lentDisk : FileTree :=
  (Cache.lender.save 60 Cache.emptyDisk).1

/-- A host whose cache is at the root and holds one entry. -/
def tightHost : Host where
  disk := lentDisk
  environment name :=
    if name = "SOLLINT_CACHE_DIR" then some "/"
    else if name = "SOLLINT_CACHE_MAX_ENTRIES" then some "1" else none
  home := none
  processors := 1
  now := 70

def tightSettings : Settings :=
  { cleanedSettings with cache := { cleanedSettings.cache with capacity := 1 } }

theorem save_lender : (Cache.lender.save 60 Cache.emptyDisk).2 = .ok () :=
  Archive.save_of_free Cache.isTree_emptyDisk (by decide) (Cache.wayTo_root _)
    (fun _ _ => rfl) _ _ _

theorem isPlain_lender : Archive.IsPlain Cache.lender.options.directory Cache.emptyDisk :=
  Archive.isPlain_of_free (by decide) (Cache.wayTo_root _) fun _ _ => rfl

/-- There is nothing on the disk but the two files. -/
theorem file_of_get?_lentDisk {loc : Location} {n : Node} (h : lentDisk.nodes.get? loc = some n) :
    (loc = [Bytes.ofText "entries.json"] ∨ loc = [Bytes.ofText "metadata.json"]) ∧
      ∃ content modified, n = .file content modified := by
  obtain ⟨made, mid, way, hmade, hentries, hrecord⟩ := Archive.replaced_of_save
    Cache.isTree_emptyDisk isPlain_lender save_lender
  obtain rfl : Cache.emptyDisk = made := Except.ok.inj
    ((FileTree.makeDirectories_of_wayTo (by decide) (Cache.wayTo_root _)).symm.trans hmade)
  obtain rfl : (FileTree.maxLinks, []) = way :=
    Except.ok.inj ((Cache.wayTo_root _).symm.trans hentries.way)
  have hget := (hrecord.get? loc).symm.trans h
  rw [hentries.get?] at hget
  split at hget
  · rename_i hloc
    exact ⟨.inr hloc, _, _, (Option.some.inj hget).symm⟩
  · split at hget
    · cases hget
    · split at hget
      · rename_i hloc
        exact ⟨.inl hloc, _, _, (Option.some.inj hget).symm⟩
      · split at hget <;> cases hget

theorem passage_lentDisk (loc : Location) : lentDisk.passage loc = none := by
  refine FileTree.passage_of_ne (fun hdir => ?_) fun target hlink => ?_
  · obtain ⟨-, content, modified, hfile⟩ := file_of_get?_lentDisk hdir
    cases hfile
  · obtain ⟨-, content, modified, hfile⟩ := file_of_get?_lentDisk hlink
    cases hfile

theorem load_tightHost : Settings.load tightHost.standard tightHost.disk tightHost.environment none
    none = .ok ⟨tightSettings, none⟩ := by
  refine load_of_overlay ?_ rfl (by decide)
  refine Option.eq_none_iff_forall_ne_some.mpr fun n hn => ?_
  have hname : ∀ name : Bytes, lentDisk.base ++ [Bytes.ofText ".sollint.toml"] = [name] →
      Bytes.ofText ".sollint.toml" = name := by
    intro name hsame
    simpa using congrArg List.getLast? hsame
  rcases (file_of_get?_lentDisk hn).1 with hloc | hloc
  · exact absurd (hname _ hloc) (by decide)
  · exact absurd (hname _ hloc) (by decide)

/-- Cleaning the two entries succeeds. -/
theorem exists_tight (backend : Backend) :
    ∃ result, cleanInvocation.run tightHost backend = .done result ∧ result.error = none := by
  have hes : ∀ e ∈ Cache.lender.sortedEntries, e.ReadsBack := by
    intro e he
    obtain ⟨k, hk⟩ := Table.mem_values_iff.mp (Cache.mem_sortedEntries.mp he)
    obtain ⟨-, hback, hdepth⟩ := Cache.holds_lender k e hk
    exact Json.ofWritten?_of_depth_le hdepth (Json.readsBack_iff.mp hback)
  obtain ⟨hentries, -⟩ := Archive.read_of_save Cache.isTree_emptyDisk isPlain_lender save_lender
    hes fun _ hplace => hplace
  have hload := Cache.load_of_readEntries (c := openCache tightSettings) rfl hentries 70
  refine ⟨_, run_cacheClean rfl load_tightHost backend, ?_⟩
  refine error_cacheClean hload (fun _ => ?_) _
  have htree : lentDisk.IsTree :=
    (Archive.saved_of_save Cache.isTree_emptyDisk isPlain_lender save_lender).isTree
  exact Archive.save_of_free htree (by decide) (Cache.wayTo_root _)
    (fun _ _ => passage_lentDisk _) _ _ _

/-- Nothing is reported as removed and one entry as remaining, although there were two. -/
theorem clean_report_adds_up_iff_fits_tight : ∃ result,
    cleanInvocation.run tightHost ⟨none, none, fun _ => none⟩ = .done result ∧
      result.error = none ∧ result.lines = [(cleanJson tightSettings 0 1).canonical.pretty] ∧
      Archive.held? (.ofText "/") lentDisk = some 2 ∧
      Archive.held? (.ofText "/") result.disk = some 1 := by
  obtain ⟨result, hrun, hok⟩ := exists_tight ⟨none, none, fun _ => none⟩
  obtain ⟨removed, remaining, hlines, hbefore, hafter, rfl, rfl, -⟩ :=
    clean_report_adds_up_iff_fits ⟨_, _, _, _, rfl⟩ rfl (by decide) Cache.isTree_emptyDisk
      isPlain_lender save_lender rfl rfl load_tightHost (fun _ hplace => hplace) hrun hok
  exact ⟨result, hrun, hok, hlines, hbefore, hafter⟩

end Host
end AnalysisRunner
