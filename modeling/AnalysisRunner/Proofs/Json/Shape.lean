import AnalysisRunner.Proofs.Json.Numeral

/-!
# Values are read as they are written

The text of a value has a shape, `Json.written`: the same tree, with every number as the
numeral it is written as and every character of a string as itself.  Reading the text
finds this shape (`ofText?_compact`).

Reading goes by productions, and each has one lemma here that says what it reads, blanks
included, from what its parts read (`readItems_last`, `readMembers_cons`, …).  The text
of a value is then followed production by production, by recursion on the value; what
follows the text is arbitrary, except that it must not continue a numeral.
-/

namespace AnalysisRunner

/-! ## 1. Strings -/

namespace Written

/-- Reading on with a character more in front. -/
def withChar (c : Char) (read : Option (List Glyph × List Char)) :
    Option (List Glyph × List Char) :=
  read.map fun x => (.char c :: x.1, x.2)

theorem readString_plain {c : Char} (hquote : c ≠ '"') (hslash : c ≠ '\\') (hlow : 0x20 ≤ c.toNat)
    (rest : List Char) : readString (c :: rest) = withChar c (readString rest) := by
  rw [readString, if_neg (by omega)]
  · rfl
  · exact fun h => hquote h
  · exact fun _ _ _ _ _ h => absurd h hslash
  · exact fun _ _ h => absurd h hslash
  · exact fun h => absurd h hslash

theorem readString_letter {e c : Char} (hletter : letterEscape? e = some c) (rest : List Char) :
    readString ('\\' :: e :: rest) = withChar c (readString rest) := by
  have he : e ≠ 'u' := by
    rintro rfl
    cases hletter
  rw [readString, hletter]
  · cases readString rest <;> rfl
  · exact fun _ _ _ _ _ h => absurd h he

theorem readString_unit {a b c d : Char} {n : Nat} (hunit : hexUnit? a b c d = some n)
    (hn : n < 0x20) (rest : List Char) :
    readString ('\\' :: 'u' :: a :: b :: c :: d :: rest) =
      withChar (Char.ofNat n) (readString rest) := by
  have hglyph : unitGlyph n = .char (Char.ofNat n) := by
    rw [unitGlyph, if_neg (by omega)]
  rw [readString, hunit]
  cases readString rest with
  | none => rfl
  | some x => exact congrArg (fun g => some (g :: x.1, x.2)) hglyph

theorem hexUnit?_hexDigit {n : Nat} (hn : n < 0x20) :
    hexUnit? '0' '0' (hexDigit (n / 16)) (hexDigit (n % 16)) = some n := by
  have h : ∀ n : Fin 0x20, hexUnit? '0' '0' (hexDigit (n.val / 16)) (hexDigit (n.val % 16)) =
      some n.val := by
    decide
  exact h ⟨n, hn⟩

/-- What stands for a character is read as that character. -/
theorem readString_escaped (c : Char) (rest : List Char) :
    readString (Json.escaped c ++ rest) = withChar c (readString rest) := by
  unfold Json.escaped
  by_cases hquote : c = '"'
  · rw [if_pos hquote, hquote]
    exact readString_letter rfl rest
  · rw [if_neg hquote]
    by_cases hslash : c = '\\'
    · rw [if_pos hslash, hslash]
      exact readString_letter rfl rest
    · rw [if_neg hslash]
      by_cases hlow : 0x20 ≤ c.toNat
      · rw [if_pos hlow]
        exact readString_plain hquote hslash hlow rest
      · rw [if_neg hlow]
        by_cases hn : c = '\n'
        · rw [if_pos hn, hn]
          exact readString_letter rfl rest
        · rw [if_neg hn]
          by_cases hr : c = '\r'
          · rw [if_pos hr, hr]
            exact readString_letter rfl rest
          · rw [if_neg hr]
            by_cases ht : c = '\t'
            · rw [if_pos ht, ht]
              exact readString_letter rfl rest
            · rw [if_neg ht]
              by_cases hb : c.toNat = 8
              · have hc : Char.ofNat 8 = c := by rw [← hb, Char.ofNat_toNat]
                rw [if_pos hb]
                exact readString_letter (e := 'b') (congrArg some hc) rest
              · rw [if_neg hb]
                by_cases hf : c.toNat = 12
                · have hc : Char.ofNat 12 = c := by rw [← hf, Char.ofNat_toNat]
                  rw [if_pos hf]
                  exact readString_letter (e := 'f') (congrArg some hc) rest
                · rw [if_neg hf]
                  have hread := readString_unit (hexUnit?_hexDigit (by omega : c.toNat < 0x20))
                    (by omega) rest
                  rw [Char.ofNat_toNat] at hread
                  exact hread

/-- **A quoted string is read as its characters.** -/
theorem readString_quoted (s : String) (rest : List Char) :
    readString (s.toList.flatMap Json.escaped ++ '"' :: rest) =
      some (s.toList.map .char, rest) := by
  induction s.toList with
  | nil => rfl
  | cons c cs ih =>
    rw [List.flatMap_cons, List.append_assoc, readString_escaped, ih]
    rfl

/-- Characters are the text of themselves. -/
theorem glyphText?_map_char (s : String) : glyphText? (s.toList.map .char) = some s := by
  have hchars : ∀ cs : List Char, glyphChars? (cs.map .char) = some cs := by
    intro cs
    induction cs with
    | nil => rfl
    | cons c cs ih => rw [List.map_cons, glyphChars?, ih, Option.map_some]
  rw [glyphText?, hchars, Option.map_some, String.ofList_toList]

/-! ## 2. One lemma per production -/

theorem skipBlanks_cons {c : Char} (hc : isBlank c = false) (rest : List Char) :
    skipBlanks (c :: rest) = c :: rest := by
  rw [skipBlanks, List.dropWhile_cons, hc]
  rfl

theorem readValue_string {cs rest after : List Char} {gs : List Glyph} (fuel : Nat)
    (hstart : skipBlanks cs = '"' :: rest) (hread : readString rest = some (gs, after)) :
    readValue (fuel + 1) cs = some (.string gs, after) := by
  rw [readValue, hstart]
  simp only [hread, Option.map_some]

theorem readValue_array_nil {cs rest after : List Char} (fuel : Nat)
    (hstart : skipBlanks cs = '[' :: rest) (hend : skipBlanks rest = ']' :: after) :
    readValue (fuel + 1) cs = some (.array [], after) := by
  rw [readValue, hstart]
  simp only [hend]

theorem readValue_array {cs rest after : List Char} {c : Char} {items : List Written} {fuel : Nat}
    (hstart : skipBlanks cs = '[' :: rest) (hrest : skipBlanks rest = c :: after) (hc : c ≠ ']')
    {tail : List Char} (hread : readItems fuel (c :: after) = some (items, tail)) :
    readValue (fuel + 1) cs = some (.array items, tail) := by
  rw [readValue, hstart]
  simp only [hrest]
  split
  · rename_i h
    exact absurd (List.cons.inj h).1 hc
  · rw [hread, Option.map_some]

theorem readValue_object_nil {cs rest after : List Char} (fuel : Nat)
    (hstart : skipBlanks cs = '{' :: rest) (hend : skipBlanks rest = '}' :: after) :
    readValue (fuel + 1) cs = some (.object [], after) := by
  rw [readValue, hstart]
  simp only [hend]

theorem readValue_object {cs rest after : List Char} {members : List (List Glyph × Written)}
    {fuel : Nat} (hstart : skipBlanks cs = '{' :: rest) (hrest : skipBlanks rest = '"' :: after)
    {tail : List Char} (hread : readMembers fuel ('"' :: after) = some (members, tail)) :
    readValue (fuel + 1) cs = some (.object members, tail) := by
  rw [readValue, hstart]
  simp only [hrest]
  split
  · rename_i h
    cases h
  · rw [hread, Option.map_some]

theorem readItems_last {fuel : Nat} {cs rest after : List Char} {v : Written}
    (hread : readValue fuel cs = some (v, rest)) (hrest : skipBlanks rest = ']' :: after) :
    readItems (fuel + 1) cs = some ([v], after) := by
  rw [readItems, hread]
  simp only [hrest]

theorem readItems_cons {fuel : Nat} {cs rest after tail : List Char} {v : Written}
    {items : List Written} (hread : readValue fuel cs = some (v, rest))
    (hrest : skipBlanks rest = ',' :: after) (hmore : readItems fuel after = some (items, tail)) :
    readItems (fuel + 1) cs = some (v :: items, tail) := by
  rw [readItems, hread]
  simp only [hrest, hmore, Option.map_some]

theorem readMembers_last {fuel : Nat} {cs start rest after end_ tail : List Char}
    {key : List Glyph} {v : Written} (hstart : skipBlanks cs = '"' :: start)
    (hkey : readString start = some (key, rest)) (hcolon : skipBlanks rest = ':' :: after)
    (hread : readValue fuel after = some (v, end_)) (hend : skipBlanks end_ = '}' :: tail) :
    readMembers (fuel + 1) cs = some ([(key, v)], tail) := by
  rw [readMembers, hstart]
  simp only [hkey, hcolon, hread, hend]

theorem readMembers_cons {fuel : Nat} {cs start rest after end_ more tail : List Char}
    {key : List Glyph} {v : Written} {members : List (List Glyph × Written)}
    (hstart : skipBlanks cs = '"' :: start) (hkey : readString start = some (key, rest))
    (hcolon : skipBlanks rest = ':' :: after) (hread : readValue fuel after = some (v, end_))
    (hend : skipBlanks end_ = ',' :: more) (hmore : readMembers fuel more = some (members, tail)) :
    readMembers (fuel + 1) cs = some ((key, v) :: members, tail) := by
  rw [readMembers, hstart]
  simp only [hkey, hcolon, hread, hend, hmore, Option.map_some]

/-- A numeral begins with a sign or a digit, and is neither a word nor anything in
brackets or quotes. -/
theorem readValue_numeral {c : Char} {cs : List Char} (fuel : Nat)
    (hc : c = '-' ∨ isDigit c = true) {n : Numeral} {rest : List Char}
    (hread : readNumeral (c :: cs) = some (n, rest)) :
    readValue (fuel + 1) (c :: cs) = some (.numeral n, rest) := by
  have hne : ∀ d : Char, d ≠ '-' → isDigit d = false → c ≠ d := by
    rintro d hd hdigit rfl
    rcases hc with h | h
    · exact hd h
    · rw [hdigit] at h
      cases h
  have hblank : isBlank c = false := by
    have h1 := hne ' ' (by decide) (by decide)
    have h2 := hne '\n' (by decide) (by decide)
    have h3 := hne '\t' (by decide) (by decide)
    have h4 := hne '\r' (by decide) (by decide)
    simp [isBlank, h1, h2, h3, h4]
  have hplain : readPlain (c :: cs) = some (.numeral n, rest) := by
    unfold readPlain
    split
    · rename_i h
      exact absurd (List.cons.inj h).1 (hne 'n' (by decide) (by decide))
    · rename_i h
      exact absurd (List.cons.inj h).1 (hne 't' (by decide) (by decide))
    · rename_i h
      exact absurd (List.cons.inj h).1 (hne 'f' (by decide) (by decide))
    · rw [hread, Option.map_some]
  rw [readValue, skipBlanks_cons hblank]
  split
  · rename_i h
    exact absurd (List.cons.inj h).1 (hne '"' (by decide) (by decide))
  · rename_i h
    exact absurd (List.cons.inj h).1 (hne '[' (by decide) (by decide))
  · rename_i h
    exact absurd (List.cons.inj h).1 (hne '{' (by decide) (by decide))
  · exact hplain

end Written

/-! ## 3. The shape of a value -/

namespace Json

mutual

/-- The shape of the text of a value. -/
def written : Json → Written
  | .null => .null
  | .bool b => .bool b
  | .number n => .numeral n.numeral
  | .string s => .string (s.toList.map .char)
  | .array items => .array (writtenItems items)
  | .object members => .object (writtenMembers members)

/-- The shapes of items. -/
def writtenItems : List Json → List Written
  | [] => []
  | v :: rest => written v :: writtenItems rest

/-- The shapes of members. -/
def writtenMembers : List (String × Json) → List (List Glyph × Written)
  | [] => []
  | (k, v) :: rest => (k.toList.map .char, written v) :: writtenMembers rest

end

/-- A number begins with a sign or a digit. -/
theorem exists_head_numberChars (n : Number) :
    ∃ c cs, numberChars n = c :: cs ∧ (c = '-' ∨ Written.isDigit c = true) := by
  rw [← n.chars_numeral]
  have hwritten := n.isWritten_numeral
  obtain ⟨c, cs, hcs⟩ := List.exists_cons_of_ne_nil hwritten.whole_ne_nil
  have hdigit := hwritten.whole c (by rw [hcs]; exact List.mem_cons_self ..)
  unfold Numeral.chars
  cases n.numeral.negative with
  | true => exact ⟨'-', _, rfl, .inl rfl⟩
  | false =>
    rw [hcs]
    exact ⟨c, _, rfl, .inr hdigit⟩

/-- A value begins with no blank and no closing bracket. -/
theorem exists_head_chars (v : Json) :
    ∃ c cs, v.chars = c :: cs ∧ Written.isBlank c = false ∧ c ≠ ']' := by
  cases v with
  | null => exact ⟨'n', _, rfl, by decide, by decide⟩
  | bool b => cases b <;> exact ⟨_, _, rfl, by decide, by decide⟩
  | number n =>
    obtain ⟨c, cs, hcs, hc⟩ := exists_head_numberChars n
    refine ⟨c, cs, by rw [chars, hcs], ?_, ?_⟩
    · rcases hc with rfl | hc
      · decide
      · cases hblank : Written.isBlank c with
        | false => rfl
        | true =>
          simp only [Written.isBlank, Bool.or_eq_true, beq_iff_eq] at hblank
          rcases hblank with ((rfl | rfl) | rfl) | rfl <;> cases hc
    · rintro rfl
      rcases hc with hc | hc <;> cases hc
  | string s => exact ⟨'"', _, rfl, by decide, by decide⟩
  | array items => cases items <;> exact ⟨'[', _, by rw [chars], by decide, by decide⟩
  | object members => cases members <;> exact ⟨'{', _, by rw [chars], by decide, by decide⟩

theorem length_chars_pos (v : Json) : 0 < v.chars.length := by
  obtain ⟨c, cs, hcs, -, -⟩ := v.exists_head_chars
  rw [hcs, List.length_cons]
  exact Nat.succ_pos _

/-- What follows an item ends a numeral. -/
theorem ends_itemsChars (vs : List Json) (rest : List Char) :
    Written.Ends (itemsChars vs ++ rest) := by
  intro c hc
  cases vs <;> (rw [itemsChars] at hc; obtain rfl := Option.some.inj hc; decide)

/-- What follows a member ends a numeral. -/
theorem ends_membersChars (ms : List (String × Json)) (rest : List Char) :
    Written.Ends (membersChars ms ++ rest) := by
  intro c hc
  cases ms <;> (rw [membersChars] at hc; obtain rfl := Option.some.inj hc; decide)

/-! ## 4. Reading a value -/

open Written

theorem skipBlanks_quoted (k : String) (rest : List Char) :
    skipBlanks (quoted k ++ rest) = '"' :: (k.toList.flatMap escaped ++ '"' :: rest) := by
  rw [quoted, List.cons_append, List.append_assoc]
  exact skipBlanks_cons (by decide) _

mutual

/-- **The text of a value is read as its shape.** -/
theorem readValue_chars : ∀ (v : Json) {fuel : Nat}, 2 * v.chars.length ≤ fuel + 1 →
    ∀ {rest : List Char}, Ends rest →
    readValue (fuel + 1) (v.chars ++ rest) = some (v.written, rest)
  | .null, _, _, _, _ => rfl
  | .bool true, _, _, _, _ => rfl
  | .bool false, _, _, _, _ => rfl
  | .number n, fuel, _, rest, hrest => by
    have hread := n.readNumeral_numberChars hrest
    obtain ⟨c, cs, hcs, hc⟩ := exists_head_numberChars n
    rw [chars, written]
    rw [hcs, List.cons_append] at hread ⊢
    exact readValue_numeral fuel hc hread
  | .string s, fuel, _, rest, _ => by
    rw [chars, written, quoted, List.cons_append, List.append_assoc]
    exact readValue_string fuel (skipBlanks_cons (by decide) _) (readString_quoted s rest)
  | .array [], fuel, _, rest, _ => by
    rw [chars, written, writtenItems]
    exact readValue_array_nil fuel (skipBlanks_cons (by decide) _) (skipBlanks_cons (by decide) _)
  | .array (v :: vs), fuel, hfuel, rest, _ => by
    rw [chars, List.length_cons, List.length_append] at hfuel
    have hread := readItems_chars v vs (by omega : _ ≤ fuel) rest
    obtain ⟨c, cs, hcs, hblank, hc⟩ := v.exists_head_chars
    rw [hcs, List.cons_append] at hread
    rw [chars, written, writtenItems, List.cons_append, List.append_assoc, hcs, List.cons_append]
    exact readValue_array (skipBlanks_cons (by decide) _) (skipBlanks_cons hblank _) hc hread
  | .object [], fuel, _, rest, _ => by
    rw [chars, written, writtenMembers]
    exact readValue_object_nil fuel (skipBlanks_cons (by decide) _) (skipBlanks_cons (by decide) _)
  | .object ((k, v) :: ms), fuel, hfuel, rest, _ => by
    rw [chars, List.length_cons, List.length_append, List.length_cons, List.length_append] at hfuel
    have hread := readMembers_chars k v ms (by omega : _ ≤ fuel) rest
    rw [quoted, List.cons_append] at hread
    rw [chars, written, writtenMembers, List.cons_append, List.append_assoc, List.cons_append,
      List.append_assoc, quoted, List.cons_append]
    exact readValue_object (skipBlanks_cons (by decide) _) (skipBlanks_cons (by decide) _) hread
termination_by v => sizeOf v

/-- Items are read up to the closing bracket. -/
theorem readItems_chars : ∀ (v : Json) (vs : List Json) {fuel : Nat},
    2 * (v.chars.length + (itemsChars vs).length) ≤ fuel → ∀ rest : List Char,
    readItems fuel (v.chars ++ (itemsChars vs ++ rest)) =
      some (v.written :: writtenItems vs, rest)
  | v, [], fuel, hfuel, rest => by
    have hpos := v.length_chars_pos
    rw [itemsChars, List.length_singleton] at hfuel
    obtain ⟨fuel, rfl⟩ : ∃ n, fuel = n + 2 := ⟨fuel - 2, by omega⟩
    have hread := readValue_chars v (by omega : _ ≤ fuel + 1) (ends_itemsChars [] rest)
    exact readItems_last hread (skipBlanks_cons (by decide) _)
  | v, v' :: vs, fuel, hfuel, rest => by
    have hpos := v.length_chars_pos
    rw [itemsChars, List.length_cons, List.length_append] at hfuel
    obtain ⟨fuel, rfl⟩ : ∃ n, fuel = n + 2 := ⟨fuel - 2, by omega⟩
    have hread := readValue_chars v (by omega : _ ≤ fuel + 1) (ends_itemsChars (v' :: vs) rest)
    have hmore := readItems_chars v' vs (by omega : _ ≤ fuel + 1) rest
    rw [writtenItems]
    refine readItems_cons hread ?_ hmore
    rw [itemsChars, List.cons_append, List.append_assoc]
    exact skipBlanks_cons (by decide) _
termination_by v vs => sizeOf v + sizeOf vs

/-- Members are read up to the closing brace. -/
theorem readMembers_chars : ∀ (k : String) (v : Json) (ms : List (String × Json)) {fuel : Nat},
    2 * ((quoted k).length + (v.chars.length + (membersChars ms).length + 1)) ≤ fuel →
    ∀ rest : List Char,
    readMembers fuel (quoted k ++ ':' :: (v.chars ++ (membersChars ms ++ rest))) =
      some ((k.toList.map .char, v.written) :: writtenMembers ms, rest)
  | k, v, [], fuel, hfuel, rest => by
    rw [membersChars, List.length_singleton] at hfuel
    obtain ⟨fuel, rfl⟩ : ∃ n, fuel = n + 2 := ⟨fuel - 2, by omega⟩
    have hread := readValue_chars v (by omega : _ ≤ fuel + 1) (ends_membersChars [] rest)
    exact readMembers_last (skipBlanks_quoted k _) (readString_quoted k _)
      (skipBlanks_cons (by decide) _) hread (skipBlanks_cons (by decide) _)
  | k, v, (k', v') :: ms, fuel, hfuel, rest => by
    rw [membersChars, List.length_cons, List.length_append, List.length_cons,
      List.length_append] at hfuel
    obtain ⟨fuel, rfl⟩ : ∃ n, fuel = n + 2 := ⟨fuel - 2, by omega⟩
    have hread := readValue_chars v (by omega : _ ≤ fuel + 1)
      (ends_membersChars ((k', v') :: ms) rest)
    have hmore := readMembers_chars k' v' ms (by omega : _ ≤ fuel + 1) rest
    rw [writtenMembers]
    refine readMembers_cons (skipBlanks_quoted k _) (readString_quoted k _)
      (skipBlanks_cons (by decide) _) hread ?_ hmore
    rw [membersChars, List.cons_append, List.append_assoc, List.cons_append, List.append_assoc]
    exact skipBlanks_cons (by decide) _
termination_by _ v ms => sizeOf v + sizeOf ms

end

/-- **The text of a value has its shape.** -/
theorem ofText?_compact (v : Json) : Written.ofText? v.compact = some v.written := by
  have hend : Ends [] := fun c hc => absurd hc (Option.not_mem_none c)
  have hread := readValue_chars v (by omega : _ ≤ 2 * v.chars.length + 1 + 1) hend
  rw [List.append_nil] at hread
  rw [Written.ofText?, compact, String.toList_ofList, Written.ofChars?, hread]
  rfl

end Json
end AnalysisRunner
