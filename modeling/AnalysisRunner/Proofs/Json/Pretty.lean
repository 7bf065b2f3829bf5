import AnalysisRunner.Proofs.Json.Shape

/-!
# Values over several lines are read as they are written

A text over several lines differs from the text in one line by blanks, and blanks stand only
where reading skips them: before a value, a key or a closing bracket.  So each part of reading
does not see blanks in front (`readValue_append`, `readItems_append`, `readMembers_append`), and
the text is followed production by production as the text in one line is.
-/

namespace AnalysisRunner

/-! ## 1. Blanks -/

namespace Written

/-- Whether all characters are blanks. -/
def AreBlanks (cs : List Char) : Prop :=
  ∀ c ∈ cs, isBlank c = true

theorem skipBlanks_append {bs : List Char} (h : AreBlanks bs) (cs : List Char) :
    skipBlanks (bs ++ cs) = skipBlanks cs :=
  List.dropWhile_append_of_pos h

theorem readValue_append {bs : List Char} (h : AreBlanks bs) (fuel : Nat) (cs : List Char) :
    readValue fuel (bs ++ cs) = readValue fuel cs := by
  cases fuel with
  | zero => rfl
  | succ fuel => rw [readValue, readValue, skipBlanks_append h]

theorem readItems_append {bs : List Char} (h : AreBlanks bs) (fuel : Nat) (cs : List Char) :
    readItems fuel (bs ++ cs) = readItems fuel cs := by
  cases fuel with
  | zero => rfl
  | succ fuel => rw [readItems, readItems, readValue_append h]

theorem readMembers_append {bs : List Char} (h : AreBlanks bs) (fuel : Nat) (cs : List Char) :
    readMembers fuel (bs ++ cs) = readMembers fuel cs := by
  cases fuel with
  | zero => rfl
  | succ fuel => rw [readMembers, readMembers, skipBlanks_append h]

end Written

namespace Json

open Written

theorem areBlanks_newLine (depth : Nat) : AreBlanks (newLine depth) := by
  intro c hc
  rcases List.mem_cons.mp hc with rfl | hc
  · decide
  · rw [(List.mem_replicate.mp hc).2]
    decide

theorem areBlanks_space : AreBlanks [' '] := by
  intro c hc
  rw [List.mem_singleton.mp hc]
  decide

/-! ## 2. Beginnings and ends -/

theorem head?_prettyChars (depth : Nat) (v : Json) :
    (prettyChars depth v).head? = v.chars.head? := by
  cases v with
  | null => rw [prettyChars, chars]
  | bool b => cases b <;> rw [prettyChars, chars]
  | number n => rw [prettyChars, chars]
  | string s => rw [prettyChars, chars]
  | array items => cases items <;> simp [prettyChars, chars]
  | object members => cases members <;> simp [prettyChars, chars]

/-- A value begins with no blank and no closing bracket. -/
theorem exists_head_prettyChars (depth : Nat) (v : Json) :
    ∃ c cs, prettyChars depth v = c :: cs ∧ isBlank c = false ∧ c ≠ ']' := by
  obtain ⟨c, cs, hcs, hc⟩ := v.exists_head_chars
  have hhead := head?_prettyChars depth v
  rw [hcs, List.head?_cons] at hhead
  obtain ⟨cs', hcs'⟩ := List.head?_eq_some_iff.mp hhead
  exact ⟨c, cs', hcs', hc⟩

/-- What follows an item ends a numeral. -/
theorem ends_prettyItems (depth : Nat) (vs : List Json) (rest : List Char) :
    Ends (prettyItems depth vs ++ rest) := by
  intro c hc
  cases vs <;> (rw [prettyItems] at hc; obtain rfl := Option.some.inj hc; decide)

/-- What follows a member ends a numeral. -/
theorem ends_prettyMembers (depth : Nat) (ms : List (String × Json)) (rest : List Char) :
    Ends (prettyMembers depth ms ++ rest) := by
  intro c hc
  cases ms <;> (rw [prettyMembers] at hc; obtain rfl := Option.some.inj hc; decide)

/-! ## 3. Reading a value -/

mutual

/-- **The text of a value over several lines is read as its shape.** -/
theorem readValue_prettyChars : ∀ (v : Json) (depth : Nat) {fuel : Nat},
    2 * (prettyChars depth v).length ≤ fuel + 1 → ∀ {rest : List Char}, Ends rest →
    readValue (fuel + 1) (prettyChars depth v ++ rest) = some (v.written, rest)
  | .null, _, _, _, _, _ => rfl
  | .bool true, _, _, _, _, _ => rfl
  | .bool false, _, _, _, _, _ => rfl
  | .number n, depth, fuel, hfuel, rest, hrest => by
    rw [prettyChars] at hfuel ⊢
    exact readValue_chars (.number n) (by rwa [chars]) hrest
  | .string s, depth, fuel, hfuel, rest, hrest => by
    rw [prettyChars] at hfuel ⊢
    exact readValue_chars (.string s) (by rwa [chars]) hrest
  | .array [], depth, fuel, hfuel, rest, hrest => by
    rw [prettyChars] at hfuel ⊢
    exact readValue_chars (.array []) (by rwa [chars]) hrest
  | .object [], depth, fuel, hfuel, rest, hrest => by
    rw [prettyChars] at hfuel ⊢
    exact readValue_chars (.object []) (by rwa [chars]) hrest
  | .array (v :: vs), depth, fuel, hfuel, rest, _ => by
    rw [prettyChars, List.length_cons, List.length_append, List.length_append] at hfuel
    have hread := readItems_prettyChars v vs depth (by omega : _ ≤ fuel) rest
    obtain ⟨c, cs, hcs, hblank, hc⟩ := exists_head_prettyChars (depth + 1) v
    rw [hcs, List.cons_append] at hread
    rw [prettyChars, written, writtenItems, List.cons_append, List.append_assoc, List.append_assoc,
      hcs, List.cons_append]
    refine readValue_array (skipBlanks_cons (by decide) _) ?_ hc hread
    rw [skipBlanks_append (areBlanks_newLine _), skipBlanks_cons hblank]
  | .object ((k, v) :: ms), depth, fuel, hfuel, rest, _ => by
    rw [prettyChars, List.length_cons, List.length_append, List.length_append, List.length_cons,
      List.length_cons, List.length_append] at hfuel
    have hread := readMembers_prettyChars k v ms depth (by omega : _ ≤ fuel) rest
    rw [quoted, List.cons_append] at hread
    rw [prettyChars, written, writtenMembers, List.cons_append, List.append_assoc,
      List.append_assoc, List.cons_append, List.cons_append, List.append_assoc, quoted,
      List.cons_append]
    refine readValue_object (skipBlanks_cons (by decide) _) ?_ hread
    rw [skipBlanks_append (areBlanks_newLine _), skipBlanks_cons (by decide)]
termination_by v => sizeOf v

/-- Items are read up to the closing bracket. -/
theorem readItems_prettyChars : ∀ (v : Json) (vs : List Json) (depth : Nat) {fuel : Nat},
    2 * ((prettyChars (depth + 1) v).length + (prettyItems depth vs).length) ≤ fuel →
    ∀ rest : List Char,
    readItems fuel (prettyChars (depth + 1) v ++ (prettyItems depth vs ++ rest)) =
      some (v.written :: writtenItems vs, rest)
  | v, [], depth, fuel, hfuel, rest => by
    rw [prettyItems, List.length_append, List.length_singleton] at hfuel
    obtain ⟨fuel, rfl⟩ : ∃ n, fuel = n + 2 := ⟨fuel - 2, by omega⟩
    have hread := readValue_prettyChars v (depth + 1) (by omega : _ ≤ fuel + 1)
      (ends_prettyItems depth [] rest)
    refine readItems_last hread ?_
    rw [prettyItems, List.append_assoc, skipBlanks_append (areBlanks_newLine _)]
    exact skipBlanks_cons (by decide) _
  | v, v' :: vs, depth, fuel, hfuel, rest => by
    rw [prettyItems, List.length_cons, List.length_append, List.length_append] at hfuel
    obtain ⟨fuel, rfl⟩ : ∃ n, fuel = n + 2 := ⟨fuel - 2, by omega⟩
    have hread := readValue_prettyChars v (depth + 1) (by omega : _ ≤ fuel + 1)
      (ends_prettyItems depth (v' :: vs) rest)
    have hmore := readItems_prettyChars v' vs depth (by omega : _ ≤ fuel + 1) rest
    rw [← readItems_append (areBlanks_newLine (depth + 1))] at hmore
    rw [writtenItems]
    refine readItems_cons hread ?_ hmore
    rw [prettyItems, List.cons_append, List.append_assoc, List.append_assoc]
    exact skipBlanks_cons (by decide) _
termination_by v vs => sizeOf v + sizeOf vs

/-- Members are read up to the closing brace. -/
theorem readMembers_prettyChars : ∀ (k : String) (v : Json) (ms : List (String × Json))
    (depth : Nat) {fuel : Nat},
    2 * ((quoted k).length + ((prettyChars (depth + 1) v).length +
      (prettyMembers depth ms).length + 2)) ≤ fuel →
    ∀ rest : List Char,
    readMembers fuel (quoted k ++ ':' :: ' ' :: (prettyChars (depth + 1) v ++
        (prettyMembers depth ms ++ rest))) =
      some ((k.toList.map .char, v.written) :: writtenMembers ms, rest)
  | k, v, [], depth, fuel, hfuel, rest => by
    rw [prettyMembers, List.length_append, List.length_singleton] at hfuel
    obtain ⟨fuel, rfl⟩ : ∃ n, fuel = n + 2 := ⟨fuel - 2, by omega⟩
    have hread := readValue_prettyChars v (depth + 1) (by omega : _ ≤ fuel + 1)
      (ends_prettyMembers depth [] rest)
    rw [← readValue_append areBlanks_space] at hread
    refine readMembers_last (skipBlanks_quoted k _) (readString_quoted k _)
      (skipBlanks_cons (by decide) _) hread ?_
    rw [prettyMembers, List.append_assoc, skipBlanks_append (areBlanks_newLine _)]
    exact skipBlanks_cons (by decide) _
  | k, v, (k', v') :: ms, depth, fuel, hfuel, rest => by
    rw [prettyMembers, List.length_cons, List.length_append, List.length_append, List.length_cons,
      List.length_cons, List.length_append] at hfuel
    obtain ⟨fuel, rfl⟩ : ∃ n, fuel = n + 2 := ⟨fuel - 2, by omega⟩
    have hread := readValue_prettyChars v (depth + 1) (by omega : _ ≤ fuel + 1)
      (ends_prettyMembers depth ((k', v') :: ms) rest)
    rw [← readValue_append areBlanks_space] at hread
    have hmore := readMembers_prettyChars k' v' ms depth (by omega : _ ≤ fuel + 1) rest
    rw [← readMembers_append (areBlanks_newLine (depth + 1))] at hmore
    rw [writtenMembers]
    refine readMembers_cons (skipBlanks_quoted k _) (readString_quoted k _)
      (skipBlanks_cons (by decide) _) hread ?_ hmore
    rw [prettyMembers, List.cons_append, List.append_assoc, List.append_assoc, List.cons_append,
      List.cons_append, List.append_assoc]
    exact skipBlanks_cons (by decide) _
termination_by _ v ms => sizeOf v + sizeOf ms

end

/-- **The text of a value over several lines has its shape.** -/
theorem ofText?_pretty (v : Json) : Written.ofText? v.pretty = some v.written := by
  have hend : Ends [] := fun c hc => absurd hc (Option.not_mem_none c)
  have hread := readValue_prettyChars v 0 (by omega : _ ≤ 2 * (prettyChars 0 v).length + 1 + 1) hend
  rw [List.append_nil] at hread
  rw [Written.ofText?, pretty, String.toList_ofList, Written.ofChars?, hread]
  rfl

end Json
end AnalysisRunner
