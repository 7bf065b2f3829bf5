import Mathlib.Algebra.Group.Nat.Defs
import AnalysisRunner.Proofs.Cache.Capacity
import AnalysisRunner.Proofs.Clock
import AnalysisRunner.Proofs.Json.Nesting
import AnalysisRunner.Proofs.Json.Pretty

/-!
# What one cache saves, another one takes over

Two caches use one directory.  They may differ in everything else: in what they hold and have
counted, in their lifetimes and capacities, and in what their clocks show.  When one is saved
and then the other one loaded, the second takes over the entries of the first that are not too
old for it, in place of what it held for the same files; it takes over how often the first was
asked, too; and it gives up what it has no room for, its own entries and the new ones alike.
`Cache.TakesOver` says so, from the contents of the two caches alone.

What is too old for a cache is settled by the age of an entry and the lifetime of the cache.  The
lifetime in force is cut to sixty-four bits, so a cache may leave behind entries that are younger
than the lifetime that it was given, and no others (`Cache.TakesOver.iff_of_le`).

Two files lie in between, and both are read as what was written.  For the entries that needs
results that read back (`Json.ReadsBack`) and are not nested too deep to stand in a list of
entries.  The record holds nothing but numbers, and always reads back
(`Archive.record?_recordText`).

A file that is no list of entries is refused as a whole, and the cache stays as it was.
-/

namespace AnalysisRunner

/-! ## 1. The files of a save -/

/-- Whether a path leads to a directory. -/
def FileTree.LeadsTo (t : FileTree) (dir : Path) (place : Location) : Prop :=
  dir.bytes.contains 0 = false ∧ ∃ links, t.wayTo dir = .ok (links, place)

namespace Archive

/-- The fields of a record as they stand in its text. -/
theorem fields?_recordJson (r : SaveRecord) :
    Readable.fields? recordNames (recordJson r).written = some
      ([version, r.savedAt, r.lifetime, r.count, r.hits, r.misses].map fun n =>
        some (.numeral (Number.nat n).numeral)) := by
  have hmembers := Written.members?_writtenMembers
    [("version", .number (.nat version)), ("saved_at", .number (.nat r.savedAt)),
     ("ttl_ms", .number (.nat r.lifetime)), ("entry_count", .number (.nat r.count)),
     ("hits", .number (.nat r.hits)), ("misses", .number (.nat r.misses))]
  rw [recordJson, Json.written]
  show (Written.members? _).bind (Readable.byName? recordNames) = _
  rw [hmembers, Option.bind_some]
  simp [Readable.byName?, Readable.single?, recordNames, Json.written]

/-- **A record reads back.** -/
theorem record?_recordText (r : SaveRecord) : record? (recordText r) = some r := by
  have hnat : ∀ n : UInt64, Readable.nat? (Written.numeral (Number.nat n).numeral) = some n :=
    Numeral.nat?_numeral
  unfold record? recordText
  simp only [Json.ofText?_pretty, Option.bind_eq_bind, Option.bind_some, fields?_recordJson,
    List.map_cons, List.map_nil, Readable.required, hnat, if_true]

variable {dir : Path} {disk : FileTree} {es : List Entry}

/-- **What was saved is read by every path that leads to the directory.** -/
theorem read_of_save {r : SaveRecord} {now : Nat} (htree : disk.IsTree)
    (hplain : IsPlain dir disk) (hsave : (save dir es r now disk).2 = .ok ())
    (hes : ∀ e ∈ es, e.ReadsBack) {dir' : Path}
    (hsame : ∀ place, (save dir es r now disk).1.LeadsTo dir place →
      (save dir es r now disk).1.LeadsTo dir' place) :
    readEntries dir' (save dir es r now disk).1 = .ok (some es) ∧
      readRecord dir' (save dir es r now disk).1 = some r := by
  obtain ⟨way, hnul, hway, hentries, hrecord⟩ := files_of_save htree hplain hsave
  obtain ⟨hnul', links, hway'⟩ := hsame way.2 ⟨hnul, way.1, hway⟩
  have hread : (save dir es r now disk).1.read (entriesFile dir') =
      .ok (Bytes.ofText (entriesText es)) :=
    FileTree.read_of_file (isFileName_of_mem (by decide)) hnul' hway' hentries
  have hread' : (save dir es r now disk).1.read (recordFile dir') =
      .ok (Bytes.ofText (recordText r)) :=
    FileTree.read_of_file (isFileName_of_mem (by decide)) hnul' hway' hrecord
  constructor
  · refine readEntries_eq_ok_iff.mpr ⟨_, hread, ?_⟩
    rw [Bytes.text?_ofText, Option.bind_some, entries?_of_readsBack hes]
  · rw [readRecord, hread']
    dsimp only
    rw [Bytes.text?_ofText, Option.bind_some, record?_recordText]

/-! ## 2. Files that are refused -/

/-- Whether bytes are no list of entries: they are no text, or no JSON, or no list, or something
in the list is no entry. -/
def IsMalformed (bytes : Bytes) : Prop :=
  bytes.text? = none ∨ ∃ text, bytes.text? = some text ∧
    (Written.ofText? text = none ∨ ∃ w, Written.ofText? text = some w ∧
      ∀ items, w = .array items → ∃ item ∈ items, Entry.ofWritten? item = none)

/-- Whether there is a file of entries that cannot be read, or is no list of entries. -/
def IsUnusable (dir : Path) (disk : FileTree) : Prop :=
  (∃ fault, fault ≠ .notFound ∧ disk.read (entriesFile dir) = .error fault) ∨
    ∃ bytes, disk.read (entriesFile dir) = .ok bytes ∧ IsMalformed bytes

theorem mapM_eq_none_of_mem {items : List Written} {item : Written} (hitem : item ∈ items)
    (hnone : Entry.ofWritten? item = none) : items.mapM Entry.ofWritten? = none := by
  refine Option.eq_none_iff_forall_ne_some.mpr fun found hfound => ?_
  induction items generalizing found with
  | nil => cases hitem
  | cons first rest ih =>
    rw [List.mapM_cons] at hfound
    obtain ⟨e, he, hfound⟩ := Option.bind_eq_some_iff.mp hfound
    obtain ⟨others, hothers, -⟩ := Option.bind_eq_some_iff.mp hfound
    rcases List.mem_cons.mp hitem with rfl | hitem
    · rw [hnone] at he
      cases he
    · exact ih hitem others hothers

theorem entries?_of_isMalformed {bytes : Bytes} (h : IsMalformed bytes) :
    bytes.text?.bind entries? = none := by
  rcases h with htext | ⟨text, htext, hwritten | ⟨w, hwritten, hitems⟩⟩
  · rw [htext, Option.bind_none]
  · rw [htext, Option.bind_some, entries?, hwritten]
    rfl
  · rw [htext, Option.bind_some, entries?, hwritten]
    cases w with
    | array items =>
      obtain ⟨item, hitem, hnone⟩ := hitems items rfl
      exact mapM_eq_none_of_mem hitem hnone
    | _ => rfl

/-- **A file that is no list of entries is refused.** -/
theorem readEntries_of_isUnusable (h : IsUnusable dir disk) :
    ∃ fault, readEntries dir disk = .error fault := by
  rcases h with ⟨fault, hfault, hread⟩ | ⟨bytes, hread, hmalformed⟩
  · refine ⟨.disk fault, ?_⟩
    rw [readEntries, hread]
    split
    · rename_i heq
      exact absurd (Except.error.inj heq) hfault
    · rename_i heq
      rw [Except.error.inj heq]
    · rename_i heq
      cases heq
  · refine ⟨.corrupt (entriesFile dir), ?_⟩
    rw [readEntries, hread]
    dsimp only
    rw [entries?_of_isMalformed hmalformed]

end Archive

/-! ## 3. Taking over -/

theorem Entry.not_isExpired (e : Entry) (now : UInt64) (lifetime : Duration) :
    (!e.isExpired now lifetime) = decide (e.age now < lifetime.ticks) := by
  rw [Bool.eq_iff_iff, Bool.not_eq_true', isExpired_eq_false_iff, decide_eq_true_iff]

namespace Cache

/-- Whether a cache can come about: from one with nothing in it, by using, saving and loading
it. -/
def Reachable (c : Cache) : Prop :=
  ∃ options now disk steps, ((StoreState.fresh options now disk).run steps).cache = c

theorem Reachable.fits {c : Cache} (h : c.Reachable) : c.Fits := by
  obtain ⟨options, now, disk, steps, rfl⟩ := h
  exact (StoreState.fits_run options now disk steps).1

/-- Whether a cache took over what another one held, at a time: `n` entries that are younger than
a limit, in milliseconds, in place of what it held for the same files, and what was counted. -/
structure TakesOver (limit : Nat) (a b : Cache) (now : UInt64) (n : Nat) (b' : Cache) : Prop where
  count : n = a.entries.values.countP fun e => e.age now < limit
  /-- Of the entries that there are then, the first go until the others fit. -/
  contents : ∃ grown gone,
    (∀ k, grown.get? k =
      ((a.entries.get? k).filter fun e => e.age now < limit).or (b.entries.get? k)) ∧
    Trimmed { b with entries := grown } none b' gone
  /-- Counts are kept in sixty-four bits. -/
  hits : a.hits < 2 ^ 64 → b'.hits = a.hits
  misses : a.misses < 2 ^ 64 → b'.misses = a.misses
  expired : b'.expired = b.expired

variable {a b : Cache}

/-- Merging puts the entries of a cache that are not too old in place of what there was. -/
theorem Holds.get?_merged_sortedEntries {P : Entry → Prop} (h : a.Holds P) (b : Cache)
    (now : UInt64) (r : Option SaveRecord) (k : String) :
    (b.merged now a.sortedEntries r).entries.get? k =
      ((a.entries.get? k).filter fun e => e.age now < b.options.lifetime.ticks).or
        (b.entries.get? k) := by
  simp only [← Entry.not_isExpired]
  have hnodup : ((b.fresh now a.sortedEntries).map Entry.key).Nodup :=
    ((a.perm_sortedEntries.map Entry.key).nodup_iff.mpr h.nodup_values).sublist
      (List.filter_sublist.map _)
  have hmem : ∀ {e}, e ∈ b.fresh now a.sortedEntries ∧ e.key = k ↔
      (a.entries.get? k).filter (fun e => !e.isExpired now b.options.lifetime) = some e := by
    intro e
    rw [mem_fresh, mem_sortedEntries, Option.filter_eq_some_iff, h.get?_eq_some_iff,
      Bool.not_eq_true']
    exact ⟨fun hx => ⟨⟨hx.1.1, hx.2⟩, hx.1.2⟩, fun hx => ⟨⟨hx.1.1, hx.2⟩, hx.1.2⟩⟩
  cases hfound : (a.entries.get? k).filter fun e => !e.isExpired now b.options.lifetime with
  | some e =>
    obtain ⟨hfresh, rfl⟩ := hmem.mpr hfound
    exact Table.get?_foldl_insert_of_mem Entry.key id _ hnodup hfresh
  | none =>
    refine Table.get?_foldl_insert_of_notMem Entry.key id _ fun hkey => ?_
    obtain ⟨e, he, hsame⟩ := List.mem_map.mp hkey
    rw [hmem.mp ⟨he, hsame⟩] at hfound
    cases hfound

theorem length_fresh_sortedEntries (a b : Cache) (now : UInt64) :
    (b.fresh now a.sortedEntries).length =
      a.entries.values.countP fun e => e.age now < b.options.lifetime.ticks := by
  simp only [← Entry.not_isExpired]
  rw [fresh, ← List.countP_eq_length_filter, a.perm_sortedEntries.countP_eq]

/-- **A cache that is restored takes over what was saved.** -/
theorem takesOver_restore {P : Entry → Prop} (ha : a.Holds P) (hb : b.Fits)
    (savedAt now : UInt64) :
    TakesOver b.options.lifetime.ticks a b now (b.fresh now a.sortedEntries).length
      (b.restore now a.sortedEntries (some (a.record savedAt))) where
  count := length_fresh_sortedEntries a b now
  contents := ⟨_, _, ha.get?_merged_sortedEntries b now (some (a.record savedAt)),
    hb.trimmed_restore now a.sortedEntries (some (a.record savedAt))⟩
  hits h := by
    show a.hits.toUInt64.toNat = a.hits
    exact Nat.mod_eq_of_lt h
  misses h := by
    show a.misses.toUInt64.toNat = a.misses
    exact Nat.mod_eq_of_lt h
  expired := rfl

/-- **A longer limit tells the same exactly if no entry has an age in between.** -/
theorem TakesOver.iff_of_le {short long : Nat} (hle : short ≤ long) {now : UInt64} {n : Nat}
    {b' : Cache} (h : TakesOver short a b now n b') :
    TakesOver long a b now n b' ↔
      ∀ k e, a.entries.get? k = some e → e.age now < long → e.age now < short := by
  constructor
  · intro hlong k e he hage
    -- as many entries are younger than the one limit as than the other, so they are the same
    have hsub := List.monotone_filter_right a.entries.values
      (p := fun e => e.age now < short) (q := fun e => e.age now < long)
      fun f hf => decide_eq_true (Nat.lt_of_lt_of_le (of_decide_eq_true hf) hle)
    have hlength := h.count.symm.trans hlong.count
    rw [List.countP_eq_length_filter, List.countP_eq_length_filter] at hlength
    have hmem : e ∈ a.entries.values.filter fun e => e.age now < long :=
      List.mem_filter.mpr ⟨Table.mem_values_iff.mpr ⟨k, he⟩, decide_eq_true hage⟩
    rw [← hsub.eq_of_length hlength] at hmem
    exact of_decide_eq_true (List.mem_filter.mp hmem).2
  · intro hnone
    have hsame : ∀ k e, a.entries.get? k = some e →
        decide (e.age now < long) = decide (e.age now < short) := fun k e he =>
      decide_eq_decide.mpr ⟨hnone k e he, fun hage => Nat.lt_of_lt_of_le hage hle⟩
    obtain ⟨grown, gone, hgrown, htrimmed⟩ := h.contents
    refine { h with count := ?_, contents := ⟨grown, gone, fun k => ?_, htrimmed⟩ }
    · refine h.count.trans (List.countP_congr fun e he => ?_)
      obtain ⟨k, hk⟩ := Table.mem_values_iff.mp he
      rw [hsame k e hk]
    · rw [hgrown k]
      cases hk : a.entries.get? k with
      | none => rfl
      | some e => rw [Option.filter_some, Option.filter_some, hsame k e hk]

/-- A load that is refused leaves the cache as it was. -/
theorem load_of_isUnusable (hpersistent : b.options.persistent = true) {disk : FileTree}
    (h : Archive.IsUnusable b.options.directory disk) (now : UInt64) :
    ∃ fault, b.load now disk = (.error fault, b) := by
  obtain ⟨fault, hfault⟩ := Archive.readEntries_of_isUnusable h
  refine ⟨fault, ?_⟩
  rw [load, if_pos hpersistent, hfault]

/-- **What one cache saves, another one takes over.**  If a cache is saved successfully to a
directory in which the names of a save are no links, and the results that it holds read back and
are nested at most 125 levels deep, then a cache that is loaded from the same directory, whenever
that is, takes over what the first one holds and is younger than the lifetime in force.  That is
what is younger than the lifetime it was given exactly if no entry has an age in between the two.
But if the file of the entries cannot be read or is malformed, loading is refused, and the cache
is as it was. -/
theorem load_takes_over_what_was_saved (ha : a.Reachable) (hb : b.Reachable)
    (hsaves : a.options.persistent = true) (hloads : b.options.persistent = true)
    (savedAt now : UInt64) (disk : FileTree) :
    (disk.IsTree → Archive.IsPlain a.options.directory disk →
      (∀ k e, a.entries.get? k = some e → e.result.ReadsBack ∧ e.result.depth ≤ 125) →
      (a.save savedAt disk).2 = .ok () →
      (∀ place, (a.save savedAt disk).1.LeadsTo a.options.directory place →
        (a.save savedAt disk).1.LeadsTo b.options.directory place) →
      ∃ n b', b.load now (a.save savedAt disk).1 = (.ok n, b') ∧
        TakesOver b.options.lifetime.ticks a b now n b' ∧
        (TakesOver b.options.lifetime.millis a b now n b' ↔
          ¬ ∃ k e, a.entries.get? k = some e ∧ b.options.lifetime.ticks ≤ e.age now ∧
            e.age now < b.options.lifetime.millis)) ∧
    (Archive.IsUnusable b.options.directory disk →
      ∃ fault, b.load now disk = (.error fault, b)) := by
  refine ⟨fun htree hplain hresults hsave hsame => ?_, fun h => load_of_isUnusable hloads h now⟩
  have hes : ∀ e ∈ a.sortedEntries, e.ReadsBack := by
    intro e he
    obtain ⟨k, hk⟩ := Table.mem_values_iff.mp (mem_sortedEntries.mp he)
    obtain ⟨hback, hdepth⟩ := hresults k e hk
    exact Json.ofWritten?_of_depth_le hdepth (Json.readsBack_iff.mp hback)
  rw [save, if_pos hsaves] at hsave hsame ⊢
  obtain ⟨hentries, hrecord⟩ := Archive.read_of_save htree hplain hsave hes hsame
  have hload := load_of_readEntries hloads hentries now
  rw [hrecord] at hload
  have htakes := takesOver_restore ha.fits.filed hb.fits savedAt now
  refine ⟨_, _, hload, htakes, (htakes.iff_of_le (Duration.ticks_le_millis _)).trans ?_⟩
  simp only [not_exists, not_and]
  exact forall_congr' fun k => forall_congr' fun e => forall_congr' fun _ => by omega

/-! ## 4. A handover

The cache that lends holds two results, one of which is too old for the cache that borrows.  The
cache that borrows holds an older result for another file, and has room for one. -/

/-- A disk with nothing on it. -/
def emptyDisk : FileTree where
  nodes := .empty

/-- A disk with a file of entries in which there is something else. -/
def spoiltDisk : FileTree where
  nodes := Table.empty.insert [Bytes.ofText "entries.json"] (.file (Bytes.ofText "[\x7b\x7d]") 0)

def lender : Cache :=
  ((StoreState.fresh ⟨.ofText "/", ⟨1000⟩, 5, true⟩ 10 emptyDisk).run
    [.use (.set (.ofText "a") "x" "" .null), .use (.clock 60),
      .use (.set (.ofText "b") "y" "" (.object [("found", .number (.negSucc 0))]))]).cache

def borrower : Cache :=
  ((StoreState.fresh ⟨.ofText "/", ⟨50⟩, 0, true⟩ 5 emptyDisk).run
    [.use (.set (.ofText "c") "z" "" .null)]).cache

theorem holds_lender : lender.Holds fun e => e.result.ReadsBack ∧ e.result.depth ≤ 125 := by
  have hnull : Json.null.ReadsBack ∧ Json.null.depth ≤ 125 := by
    refine ⟨Json.readsBack_of_isWhole ?_ rfl (Nat.zero_le _), Nat.zero_le _⟩
    rw [Json.IsWhole]
    · exact trivial
    all_goals simp
  have hfound : (Json.object [("found", .number (.negSucc 0))]).ReadsBack ∧
      (Json.object [("found", .number (.negSucc 0))]).depth ≤ 125 := by
    refine ⟨Json.readsBack_of_isWhole ?_ rfl (by decide), by decide⟩
    simp [Json.IsWhole, Json.MembersWhole]
  exact ((holds_new _ _).set hnull).set hfound

theorem isTree_emptyDisk : emptyDisk.IsTree := by
  refine ⟨?_, rfl⟩
  intro loc name n hn
  cases hn

theorem wayTo_root (t : FileTree) : t.wayTo (.ofText "/") = .ok (FileTree.maxLinks, []) := by
  have hhops : (Path.ofText "/").hops = [] := by
    decide
  rw [FileTree.wayTo, hhops, FileTree.descend]
  rfl

theorem isUnusable_spoiltDisk : Archive.IsUnusable (.ofText "/") spoiltDisk := by
  refine .inr ⟨Bytes.ofText "[\x7b\x7d]", ?_, .inr ⟨_, Bytes.text?_ofText _, .inr ?_⟩⟩
  · exact FileTree.read_of_file (Archive.isFileName_of_mem (by decide)) (by decide)
      (wayTo_root _) rfl
  · refine ⟨.array [.object []], rfl, fun items hitems => ⟨.object [], ?_, rfl⟩⟩
    rw [← Written.array.inj hitems]
    exact List.mem_singleton.mpr rfl

theorem load_takes_over_what_was_saved_lent :
    ((lender.save 60 emptyDisk).2 = .ok () ∧
      ∃ b', borrower.load 70 (lender.save 60 emptyDisk).1 = (.ok 1, b') ∧
        TakesOver 50 lender borrower 70 1 b') ∧
      ∃ fault, borrower.load 70 spoiltDisk = (.error fault, borrower) := by
  have hfree : ∀ name ∈ Archive.fileNames,
      emptyDisk.passage ((FileTree.maxLinks, ([] : Location)).2 ++ [name]) = none :=
    fun _ _ => rfl
  have hsave : (lender.save 60 emptyDisk).2 = .ok () :=
    Archive.save_of_free isTree_emptyDisk (by decide) (wayTo_root _) hfree _ _ _
  have hlender : lender.Reachable := ⟨_, _, _, _, rfl⟩
  have hborrower : borrower.Reachable := ⟨_, _, _, _, rfl⟩
  obtain ⟨n, b', hload, htakes, -⟩ :=
    (load_takes_over_what_was_saved hlender hborrower rfl rfl 60 70 emptyDisk).1 isTree_emptyDisk
      (Archive.isPlain_of_free (by decide) (wayTo_root _) hfree)
      (fun k e he => (holds_lender k e he).2) hsave (fun _ h => h)
  obtain rfl : n = 1 := htakes.count
  exact ⟨⟨hsave, b', hload, htakes⟩, ((load_takes_over_what_was_saved hlender hborrower rfl rfl
    60 70 spoiltDisk).2 isUnusable_spoiltDisk)⟩

end Cache
end AnalysisRunner
