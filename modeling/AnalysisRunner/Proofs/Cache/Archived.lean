import AnalysisRunner.Cache.Persist
import AnalysisRunner.Proofs.Cache.Contents
import AnalysisRunner.Proofs.Json.Shape
import AnalysisRunner.Proofs.Text.Utf8

/-!
# Saved entries read back

The text of a list of entries is read as these entries.  Everything about an entry but
its result is text and a number, and these read back whatever they are.  A result is any
value, and values need not read back as themselves: members may be out of order, a
fraction may be rounded, and a value may be nested too deep.  So the condition is on the
results: `Json.ReadsBack`.

A result that reads back on its own may still be nested too deep for a document that
holds it two levels down.  Then the whole text is refused, and never read as something
else (`eq_of_entries?`).  So a cache that is restored from saved entries holds what it held
and some of these entries (`Cache.Holds.load`).
-/

namespace AnalysisRunner
namespace Json

/-- Whether the text of a value is read as that value. -/
def ReadsBack (v : Json) : Prop :=
  ofText? v.compact = some v

theorem readsBack_iff {v : Json} : v.ReadsBack ↔ ofWritten? maxDepth v.written = some v := by
  rw [ReadsBack, ofText?, ofText?_compact, Option.bind_some]

/-! ## 1. Depth -/

mutual

/-- What is read within a depth is read within a greater one. -/
theorem ofWritten?_mono {d d' : Nat} (h : d ≤ d') :
    ∀ {w : Written} {v : Json}, ofWritten? d w = some v → ofWritten? d' w = some v
  | .null, _, hv => hv
  | .bool _, _, hv => hv
  | .numeral _, _, hv => hv
  | .string _, _, hv => hv
  | .array items, v, hv => by
    rw [ofWritten?] at hv ⊢
    by_cases hd : d = 0
    · rw [if_pos hd] at hv
      cases hv
    · rw [if_neg hd] at hv
      rw [if_neg (by omega)]
      obtain ⟨vs, hvs, rfl⟩ := Option.map_eq_some_iff.mp hv
      rw [itemsOfWritten?_mono (Nat.sub_le_sub_right h 1) hvs, Option.map_some]
  | .object members, v, hv => by
    rw [ofWritten?] at hv ⊢
    by_cases hd : d = 0
    · rw [if_pos hd] at hv
      cases hv
    · rw [if_neg hd] at hv
      rw [if_neg (by omega)]
      obtain ⟨ms, hms, rfl⟩ := Option.map_eq_some_iff.mp hv
      rw [membersOfWritten?_mono (Nat.sub_le_sub_right h 1) hms, Option.map_some]

theorem itemsOfWritten?_mono {d d' : Nat} (h : d ≤ d') :
    ∀ {ws : List Written} {vs : List Json}, itemsOfWritten? d ws = some vs →
      itemsOfWritten? d' ws = some vs
  | [], _, hvs => hvs
  | w :: ws, vs, hvs => by
    rw [itemsOfWritten?] at hvs ⊢
    split at hvs
    · rename_i v rest hv hrest
      rw [ofWritten?_mono h hv, itemsOfWritten?_mono h hrest]
      exact hvs
    · cases hvs

theorem membersOfWritten?_mono {d d' : Nat} (h : d ≤ d') :
    ∀ {ws : List (List Glyph × Written)} {ms : List (String × Json)},
      membersOfWritten? d ws = some ms → membersOfWritten? d' ws = some ms
  | [], _, hms => hms
  | (k, w) :: ws, ms, hms => by
    rw [membersOfWritten?] at hms ⊢
    split at hms
    · rename_i key v rest hkey hv hrest
      rw [hkey, ofWritten?_mono h hv, membersOfWritten?_mono h hrest]
      exact hms
    · cases hms

end

/-- A value that reads back is read as itself within any depth, if it is read at all. -/
theorem ReadsBack.eq_of_ofWritten? {v w : Json} {d : Nat} (h : v.ReadsBack) (hd : d ≤ maxDepth)
    (hw : ofWritten? d v.written = some w) : w = v := by
  have hfull := ofWritten?_mono hd hw
  rw [readsBack_iff.mp h] at hfull
  exact (Option.some.inj hfull).symm

end Json

/-! ## 2. Records -/

/-- The members of a written object. -/
theorem Written.members?_writtenMembers (ms : List (String × Json)) :
    Written.members? (Json.writtenMembers ms) = some (ms.map fun m => (m.1, m.2.written)) := by
  unfold Written.members?
  induction ms with
  | nil => rfl
  | cons m ms ih =>
    obtain ⟨k, v⟩ := m
    rw [Json.writtenMembers, List.mapM_cons, ih, Written.glyphText?_map_char]
    rfl

/-- A natural reads back. -/
theorem Numeral.nat?_numeral (n : UInt64) : (Number.nat n).numeral.nat? = some n := by
  have hnumber : (Number.nat n).numeral.number? = some (.nat n) := by
    unfold number? Number.numeral
    dsimp only
    rw [if_pos ⟨rfl, rfl⟩, if_neg Bool.false_ne_true, digitsValue_natChars, if_pos n.toNat_lt,
      Nat.toUInt64, UInt64.ofNat_toNat]
  rw [nat?, hnumber]

namespace Entry

/-- The fields of an entry as they stand in its text. -/
theorem fields?_json (e : Entry) : Readable.fields? fieldNames e.json.written = some
    [some (.string (e.key.toList.map .char)), some (.string (e.contentHash.toList.map .char)),
     some (.string (e.configHash.toList.map .char)), some e.result.written,
     some (.numeral (Number.nat e.created).numeral)] := by
  have hmembers := Written.members?_writtenMembers
    [("file_path", .string e.key), ("content_hash", .string e.contentHash),
     ("config_hash", .string e.configHash), ("result", e.result),
     ("created_at", .number (.nat e.created))]
  rw [json, Json.written]
  show (Written.members? _).bind (Readable.byName? fieldNames) = _
  rw [hmembers, Option.bind_some]
  simp [Readable.byName?, Readable.single?, fieldNames, Json.written]

/-- **An entry is read with everything but its result as it was**, and with what its
result is read as. -/
theorem ofWritten?_json (e : Entry) :
    ofWritten? e.json.written =
      (Json.ofWritten? maxResultDepth e.result.written).map fun r => { e with result := r } := by
  unfold ofWritten?
  rw [fields?_json]
  have htext : ∀ s : String, Readable.text? (Written.string (s.toList.map .char)) = some s :=
    Written.glyphText?_map_char
  have hnat : Readable.nat? (Written.numeral (Number.nat e.created).numeral) = some e.created :=
    Numeral.nat?_numeral e.created
  simp only [Option.bind_eq_bind, Option.bind_some, Readable.required, htext, hnat]
  cases Json.ofWritten? maxResultDepth e.result.written <;> rfl

end Entry

/-! ## 3. Entries -/

namespace Archive

theorem entries?_entriesText (es : List Entry) :
    entries? (entriesText es) = es.mapM fun e => Entry.ofWritten? e.json.written := by
  have hitems : ∀ es : List Entry,
      Json.writtenItems (es.map Entry.json) = es.map fun e => e.json.written := by
    intro es
    induction es with
    | nil => rfl
    | cons e es ih => rw [List.map_cons, Json.writtenItems, ih, List.map_cons]
  unfold entries? entriesText
  rw [Json.ofText?_compact, Json.written, hitems]
  show (es.map fun e => e.json.written).mapM Entry.ofWritten? = _
  rw [List.mapM_map]
  rfl

/-- **Saved entries are read as they were, or not at all**, if their results read back. -/
theorem eq_of_entries? {es es' : List Entry} (h : ∀ e ∈ es, e.result.ReadsBack)
    (hread : entries? (entriesText es) = some es') : es' = es := by
  rw [entries?_entriesText] at hread
  induction es generalizing es' with
  | nil => exact (Option.some.inj hread).symm
  | cons e es ih =>
    rw [List.mapM_cons] at hread
    obtain ⟨e', he', hread⟩ := Option.bind_eq_some_iff.mp hread
    obtain ⟨rest, hrest, hes'⟩ := Option.bind_eq_some_iff.mp hread
    obtain rfl := Option.some.inj hes'
    rw [Entry.ofWritten?_json] at he'
    obtain ⟨r, hr, rfl⟩ := Option.map_eq_some_iff.mp he'
    have hsame := (h e (List.mem_cons_self ..)).eq_of_ofWritten? (by decide) hr
    rw [ih (fun e he => h e (List.mem_cons_of_mem _ he)) hrest, hsame]

theorem readEntries_eq_ok_iff {dir : Path} {disk : FileTree} {es : List Entry} :
    readEntries dir disk = .ok (some es) ↔
      ∃ bytes, disk.read (entriesFile dir) = .ok bytes ∧ bytes.text?.bind entries? = some es := by
  unfold readEntries
  cases hread : disk.read (entriesFile dir) with
  | error fault => cases fault <;> simp
  | ok bytes =>
    cases htext : bytes.text?.bind entries? with
    | none => simp [htext]
    | some found => simp [htext]

end Archive

/-! ## 4. Restored caches -/

namespace Cache

theorem perm_sortedEntries (c : Cache) : c.sortedEntries.Perm c.entries.values :=
  List.mergeSort_perm _ _

theorem mem_sortedEntries {c : Cache} {e : Entry} :
    e ∈ c.sortedEntries ↔ e ∈ c.entries.values :=
  List.mem_mergeSort

/-- What a restored cache holds was taken over or was there before. -/
theorem Holds.restore {c : Cache} {P : Entry → Prop} (h : c.Holds P) (now : UInt64)
    {es : List Entry} (hes : ∀ e ∈ es, P e) (r : Option SaveRecord) :
    (c.restore now es r).Holds P := by
  refine Holds.evict ?_ none
  intro k e he
  rcases Table.get?_foldl_insert_cases Entry.key id he with ⟨e', he', hkey, rfl⟩ | he
  · exact ⟨hkey, hes e' (List.mem_of_mem_filter he')⟩
  · exact h k e he

theorem load_of_readEntries {c : Cache} {disk : FileTree} {es : List Entry}
    (hpersistent : c.options.persistent = true)
    (hread : Archive.readEntries c.options.directory disk = .ok (some es)) (now : UInt64) :
    c.load now disk = (.ok (c.fresh now es).length,
      c.restore now es (Archive.readRecord c.options.directory disk)) := by
  rw [Cache.load, if_pos hpersistent, hread]

/-- **A cache that is restored from saved entries holds nothing else that is new.** -/
theorem Holds.load {c : Cache} {P : Entry → Prop} (h : c.Holds P) (now : UInt64)
    {disk : FileTree} {es : List Entry} (hes : ∀ e ∈ es, P e ∧ e.result.ReadsBack)
    (hsaved : ∀ bytes, disk.read (Archive.entriesFile c.options.directory) = .ok bytes →
      bytes = Bytes.ofText (Archive.entriesText es)) : (c.load now disk).2.Holds P := by
  unfold Cache.load
  split
  · cases hread : Archive.readEntries c.options.directory disk with
    | error fault => exact h
    | ok found? =>
      cases found? with
      | none => exact h
      | some found =>
        obtain ⟨bytes, hbytes, hfound⟩ := Archive.readEntries_eq_ok_iff.mp hread
        rw [hsaved bytes hbytes, Bytes.text?_ofText, Option.bind_some] at hfound
        have hsame := Archive.eq_of_entries? (fun e he => (hes e he).2) hfound
        exact h.restore now (fun e he => (hes e (hsame ▸ he)).1) _
  · exact h

end Cache
end AnalysisRunner
