import Mathlib.Data.List.Forall2
import AnalysisRunner.Proofs.Cache.Handover
import AnalysisRunner.Proofs.Json.Reordered

/-!
# The two texts of a save say what was saved

A save puts two texts into its directory, the entries in one line and the record over several.
Reading each of them gives back what was written: the entries one by one and in the same order,
and the record.

The condition is on the results, and it is a plain one: no fractions in them, no object with two
members of one key, and no more than 125 levels of arrays and objects (`Entry.IsStorable`).  The
document has two levels of its own around each result, and reading stops at 127.  Keys,
fingerprints and times may be anything at all.

Reading sorts the members of objects.  So a result comes back with its members in the order of
their keys; as a value of unordered objects it is the same (`Entry.Same`), and a result whose
members are sorted already comes back as it is.
-/

namespace AnalysisRunner
namespace Entry

/-- Whether the result of an entry can be stored: it has no fractions, no two members of an
object share a key, and it is not nested too deep. -/
structure IsStorable (e : Entry) : Prop where
  whole : e.result.IsWhole
  distinct : e.result.KeysDistinct
  shallow : e.result.depth ≤ 125

/-- Whether two entries are the same, up to the order of members in their results. -/
structure Same (e e' : Entry) : Prop where
  key : e'.key = e.key
  contentHash : e'.contentHash = e.contentHash
  configHash : e'.configHash = e.configHash
  created : e'.created = e.created
  result : Json.Reordered e.result e'.result

/-- An entry with the members of its result sorted. -/
def canonical (e : Entry) : Entry :=
  { e with result := e.result.canonical }

theorem IsStorable.same_canonical {e : Entry} (h : e.IsStorable) : e.Same e.canonical :=
  ⟨rfl, rfl, rfl, rfl, Json.reordered_canonical h.distinct⟩

theorem canonical_eq_self {e : Entry} (h : e.result.canonical = e.result) : e.canonical = e := by
  rw [canonical, h]

/-- **A storable entry is read with its members sorted.** -/
theorem IsStorable.ofWritten?_json {e : Entry} (h : e.IsStorable) :
    ofWritten? e.json.written = some e.canonical := by
  have hdepth : e.result.depth ≤ maxResultDepth := h.shallow
  rw [Entry.ofWritten?_json, Json.ofWritten?_written h.whole hdepth]
  rfl

end Entry

namespace Archive

variable {es : List Entry}

theorem entries?_of_isStorable (h : ∀ e ∈ es, e.IsStorable) :
    entries? (entriesText es) = some (es.map Entry.canonical) := by
  rw [entries?_entriesText]
  induction es with
  | nil => rfl
  | cons e es ih =>
    rw [List.mapM_cons, (h e (List.mem_cons_self ..)).ofWritten?_json,
      ih fun e he => h e (List.mem_cons_of_mem _ he)]
    rfl

theorem forall₂_same_canonical (h : ∀ e ∈ es, e.IsStorable) :
    List.Forall₂ Entry.Same es (es.map Entry.canonical) := by
  rw [List.forall₂_map_right_iff, List.forall₂_same]
  exact fun e he => (h e he).same_canonical

theorem readEntries_of_read {dir : Path} {disk : FileTree} {es' : List Entry}
    (hread : disk.read (entriesFile dir) = .ok (Bytes.ofText (entriesText es)))
    (hes : entries? (entriesText es) = some es') : readEntries dir disk = .ok (some es') := by
  refine readEntries_eq_ok_iff.mpr ⟨_, hread, ?_⟩
  rw [Bytes.text?_ofText, Option.bind_some, hes]

theorem readRecord_of_read {dir : Path} {disk : FileTree} {r : SaveRecord}
    (hread : disk.read (recordFile dir) = .ok (Bytes.ofText (recordText r))) :
    readRecord dir disk = some r := by
  rw [readRecord, hread]
  dsimp only
  rw [Bytes.text?_ofText, Option.bind_some, record?_recordText]

/-- **What was saved is read back.**  Storable entries and a record are written as two texts.
Wherever a file of entries holds the first text, it is read as the same entries in the same
order, and exactly as these if the members in their results are sorted; wherever a file of the
record holds the second text, it is read as the record.  And a save that succeeds puts the two
texts there. -/
theorem saved_texts_read_back (hes : ∀ e ∈ es, e.IsStorable) (r : SaveRecord) :
    ∃ es', List.Forall₂ Entry.Same es es' ∧
      ((∀ e ∈ es, e.result.canonical = e.result) → es' = es) ∧
      (∀ dir disk, disk.read (entriesFile dir) = .ok (Bytes.ofText (entriesText es)) →
        readEntries dir disk = .ok (some es')) ∧
      (∀ dir disk, disk.read (recordFile dir) = .ok (Bytes.ofText (recordText r)) →
        readRecord dir disk = some r) ∧
      ∀ dir disk now, disk.IsTree → IsPlain dir disk → (save dir es r now disk).2 = .ok () →
        (save dir es r now disk).1.read (entriesFile dir) = .ok (Bytes.ofText (entriesText es)) ∧
        (save dir es r now disk).1.read (recordFile dir) = .ok (Bytes.ofText (recordText r)) := by
  refine ⟨es.map Entry.canonical, forall₂_same_canonical hes, fun hsorted => ?_, ?_, ?_, ?_⟩
  · calc
      es.map Entry.canonical = es.map id :=
        List.map_congr_left fun e he => Entry.canonical_eq_self (hsorted e he)
      _ = es := List.map_id es
  · exact fun dir disk hread => readEntries_of_read hread (entries?_of_isStorable hes)
  · exact fun dir disk hread => readRecord_of_read hread
  · intro dir disk now htree hplain hsave
    obtain ⟨way, hnul, hway, hentries, hrecord⟩ := files_of_save htree hplain hsave
    exact ⟨FileTree.read_of_file (isFileName_of_mem (by decide)) hnul hway hentries,
      FileTree.read_of_file (isFileName_of_mem (by decide)) hnul hway hrecord⟩

/-! ## An entry with everything that is escaped

The key has a quote, a backslash and a control character in it.  The result is an object whose
members are out of order, with the least integer and the greatest one. -/

/-- Such an entry. -/
def escapedEntry : Entry where
  key := "a\"\\\x01"
  contentHash := ""
  configHash := "é\n"
  result := .object [("b", .array [.number (.negSucc (Fin.last _)), .null]),
    ("a", .number (.nat 18446744073709551615))]
  created := 18446744073709551615

theorem isStorable_escapedEntry : escapedEntry.IsStorable where
  whole := by
    simp [escapedEntry, Json.IsWhole, Json.MembersWhole, Json.ItemsWhole]
  distinct := by
    simp [escapedEntry, Json.KeysDistinct, Json.MembersKeysDistinct, Json.ItemsKeysDistinct]
  shallow := by
    simp [escapedEntry, Json.depth, Json.membersDepth, Json.itemsDepth]

/-- The entry is saved at the root of a disk with nothing on it, and read from there. -/
theorem saved_texts_read_back_escaped : ∃ es', List.Forall₂ Entry.Same [escapedEntry] es' ∧
    readEntries (.ofText "/")
        (save (.ofText "/") [escapedEntry] ⟨1, 2, 3, 4, 5⟩ 0 Cache.emptyDisk).1 = .ok (some es') ∧
    readRecord (.ofText "/")
        (save (.ofText "/") [escapedEntry] ⟨1, 2, 3, 4, 5⟩ 0 Cache.emptyDisk).1 =
      some ⟨1, 2, 3, 4, 5⟩ := by
  have hfree : ∀ name ∈ fileNames,
      Cache.emptyDisk.passage ((FileTree.maxLinks, ([] : Location)).2 ++ [name]) = none :=
    fun _ _ => rfl
  have hes : ∀ e ∈ [escapedEntry], e.IsStorable := by
    intro e he
    rw [List.mem_singleton.mp he]
    exact isStorable_escapedEntry
  obtain ⟨es', hsame, -, hentries, hrecord, hsaved⟩ := saved_texts_read_back hes ⟨1, 2, 3, 4, 5⟩
  obtain ⟨hfile, hfile'⟩ := hsaved (.ofText "/") Cache.emptyDisk 0 Cache.isTree_emptyDisk
    (isPlain_of_free (by decide) (Cache.wayTo_root _) hfree)
    (save_of_free Cache.isTree_emptyDisk (by decide) (Cache.wayTo_root _) hfree _ _ _)
  exact ⟨es', hsame, hentries _ _ hfile, hrecord _ _ hfile'⟩

end Archive
end AnalysisRunner
