import AnalysisRunner.Proofs.Json.Shape
import AnalysisRunner.Proofs.Number.Shortest

/-!
# Different values have different texts

The text of a value determines its shape, because reading finds it (`ofText?_compact`),
and the shape determines the value.  For strings, arrays and objects the latter is plain.
For numbers it has three reasons: numerals without fraction and exponent are integers,
and their digits determine them; a numeral with one of the two is a binary fraction; and
its exact value is the shortest decimal, which rounds to one number only.

So `compact_injective`: no two values are written alike, whatever the order of their
members.
-/

namespace AnalysisRunner

/-! ## 1. The exact value of a numeral -/

namespace Numeral

/-- The exponent of a numeral, zero if it has none. -/
def shift : Option (Bool × List Char) → Int
  | none => 0
  | some (true, digits) => -(digitsValue digits : Int)
  | some (false, digits) => digitsValue digits

/-- The rational that the digits of a numeral stand for, its sign apart. -/
def value (n : Numeral) : ℚ :=
  digitsValue (n.whole ++ n.fraction) * 10 ^ (shift n.exponent - n.fraction.length)

theorem digitsValue_zeros_append (k : Nat) (digits : List Char) :
    digitsValue (List.replicate k '0' ++ digits) = digitsValue digits := by
  rw [digitsValue_eq, digitsValue_eq, Nat.ofDigitChars_append, Nat.ofDigitChars_replicate_zero,
    Nat.mul_zero]

theorem digitsValue_append_zeros (k : Nat) (digits : List Char) :
    digitsValue (digits ++ List.replicate k '0') = digitsValue digits * 10 ^ k := by
  rw [digitsValue_eq, digitsValue_eq, Nat.ofDigitChars_append, Nat.ofDigitChars_replicate_zero,
    Nat.mul_comm]

end Numeral

/-- A decimal is written as a numeral of the same value. -/
theorem Decimal.value_numeral (negative : Bool) (d : Decimal) :
    (d.numeral negative).value = d.value := by
  have hvalue := Numeral.digitsValue_natChars d.digits
  have hpos : 0 < (Json.natChars d.digits).length :=
    List.length_pos_of_ne_nil (Json.natChars_ne_nil d.digits)
  unfold numeral Numeral.value Decimal.value
  generalize Json.natChars d.digits = digits at hvalue hpos
  dsimp only
  by_cases hzero : d.digits = 0
  · have hnone : Numeral.digitsValue (['0'] ++ ['0']) = 0 := rfl
    rw [if_pos hzero]
    dsimp only
    rw [hnone, hzero, Nat.cast_zero, zero_mul, zero_mul]
  · rw [if_neg hzero]
    generalize hlead : (digits.length : Int) + d.exponent - 1 = lead
    split
    · -- one digit before the point
      have hshift : Numeral.shift (some (decide (lead < 0), Json.natChars lead.natAbs)) = lead := by
        by_cases hneg : lead < 0
        · rw [decide_eq_true hneg, Numeral.shift, Numeral.digitsValue_natChars]
          omega
        · rw [decide_eq_false hneg, Numeral.shift, Numeral.digitsValue_natChars]
          omega
      dsimp only
      rw [List.take_append_drop, hvalue, hshift, List.length_drop]
      congr 2
      omega
    · split
      · dsimp only
        rw [show ['0'] ++ (List.replicate (-lead - 1).toNat '0' ++ digits) =
            List.replicate ((-lead - 1).toNat + 1) '0' ++ digits by
          rw [List.replicate_succ]
          rfl, Numeral.digitsValue_zeros_append, hvalue, Numeral.shift, List.length_append,
          List.length_replicate]
        congr 2
        push_cast
        omega
      · split
        · -- the digits end before the point
          rename_i hshort
          obtain ⟨k, hk⟩ := Int.eq_ofNat_of_zero_le (by omega : 0 ≤ d.exponent)
          have hzeros : lead.toNat + 1 - digits.length = k := by omega
          dsimp only
          rw [hzeros, List.append_assoc, ← List.replicate_succ', Numeral.digitsValue_append_zeros,
            hvalue, Numeral.shift, List.length_singleton, hk]
          push_cast
          rw [pow_succ, zpow_neg_one, zpow_natCast]
          ring
        · rename_i hlong
          dsimp only
          rw [List.take_append_drop, hvalue, Numeral.shift, List.length_drop]
          congr 2
          omega

/-! ## 2. Numbers -/

namespace Number

/-- The numeral of a fraction shows a fraction or an exponent. -/
theorem numeral_real_ne (negative : Bool) (d : Decimal) :
    (d.numeral negative).fraction ≠ [] ∨ (d.numeral negative).exponent ≠ none := by
  have hpos : 0 < (Json.natChars d.digits).length :=
    List.length_pos_of_ne_nil (Json.natChars_ne_nil d.digits)
  unfold Decimal.numeral
  dsimp only
  split
  · exact .inl (by simp)
  · split
    · exact .inr (by simp)
    · split
      · exact .inl (by simp [Json.natChars_ne_nil])
      · split
        · exact .inl (by simp)
        · left
          dsimp only
          rw [Ne, List.drop_eq_nil_iff]
          omega

/-- Binary fractions with one numeral are equal. -/
theorem real_eq_of_numeral_eq {x y : Binary64}
    (h : (Number.real x).numeral = (Number.real y).numeral) : x = y := by
  have hvalue : (Decimal.shortest x).value = (Decimal.shortest y).value := by
    rw [← Decimal.value_numeral x.negative, ← Decimal.value_numeral y.negative]
    exact congrArg Numeral.value h
  have hsign : x.negative = y.negative := by
    have hnegative : ∀ (s : Bool) (d : Decimal), (d.numeral s).negative = s := by
      intro s d
      unfold Decimal.numeral
      dsimp only
      (repeat' split) <;> rfl
    have h' := congrArg Numeral.negative h
    rwa [numeral, numeral, hnegative, hnegative] at h'
  -- a number that is not zero does not share its decimal with zero
  have hzero : ∀ {x y : Binary64}, (Decimal.shortest x).value = (Decimal.shortest y).value →
      x.mantissa = 0 → y.mantissa = 0 := by
    intro x y hvalue hx
    by_contra hy
    have hround := Decimal.rounds_shortest hy
    have hx0 : (Decimal.shortest x).value = 0 := by
      rw [Decimal.shortest, Binary64.isZero, decide_eq_true hx]
      simp [Decimal.value]
    rw [← hvalue, hx0] at hround
    exact absurd hround.low_le (not_le.mpr (Binary64.low_pos hy))
  have hmagnitude : x.mantissa = y.mantissa ∧ x.exponent = y.exponent := by
    by_cases hx : x.mantissa = 0
    · have hy := hzero hvalue hx
      obtain ⟨-, -, -, hxe⟩ := Binary64.isFormat_iff.mp x.format
      obtain ⟨-, -, -, hye⟩ := Binary64.isFormat_iff.mp y.format
      omega
    · have hy : y.mantissa ≠ 0 := fun hy => hx (hzero hvalue.symm hy)
      have hround := Decimal.rounds_shortest hy
      rw [← hvalue] at hround
      exact Binary64.eq_of_rounds (Decimal.rounds_shortest hx) hround
  obtain ⟨sx, mx, ex, hfx⟩ := x
  obtain ⟨sy, my, ey, hfy⟩ := y
  obtain ⟨rfl, rfl⟩ := hmagnitude
  obtain rfl := hsign
  rfl

/-- **Different numbers have different numerals.** -/
theorem numeral_injective : Function.Injective numeral := by
  have hnat : ∀ {m n : Nat}, Json.natChars m = Json.natChars n → m = n := by
    intro m n h
    rw [← Numeral.digitsValue_natChars m, h, Numeral.digitsValue_natChars]
  have hreal : ∀ (s : Bool) (ds : List Char) (x : Binary64),
      (⟨s, ds, [], none⟩ : Numeral) ≠ (Number.real x).numeral := by
    intro s ds x h
    rcases numeral_real_ne x.negative (Decimal.shortest x) with hne | hne
    · exact hne (congrArg Numeral.fraction h).symm
    · exact hne (congrArg Numeral.exponent h).symm
  intro a b h
  cases a with
  | nat m =>
    cases b with
    | nat n =>
      have hdigits := hnat (congrArg Numeral.whole h)
      rw [UInt64.toNat_inj.mp hdigits]
    | negSucc n => cases congrArg Numeral.negative h
    | real y => exact absurd h (hreal _ _ y)
  | negSucc m =>
    cases b with
    | nat n => cases congrArg Numeral.negative h
    | negSucc n =>
      have hdigits := hnat (congrArg Numeral.whole h)
      rw [Fin.ext (Nat.succ.inj hdigits)]
    | real y => exact absurd h (hreal _ _ y)
  | real x =>
    cases b with
    | nat n => exact absurd h.symm (hreal _ _ x)
    | negSucc n => exact absurd h.symm (hreal _ _ x)
    | real y => rw [real_eq_of_numeral_eq h]

end Number

/-! ## 3. Values -/

namespace Json

/-- Strings with one spelling are equal. -/
theorem glyphs_injective {s t : String}
    (h : s.toList.map Glyph.char = t.toList.map Glyph.char) : s = t := by
  have hread := Written.glyphText?_map_char s
  rw [h, Written.glyphText?_map_char] at hread
  exact (Option.some.inj hread).symm

mutual

/-- **The shape of a value determines it.** -/
theorem written_injective : ∀ {v w : Json}, v.written = w.written → v = w
  | .null, w, h => by
    cases w with
    | null => rfl
    | _ => simp [written] at h
  | .bool b, w, h => by
    cases w with
    | bool c => rw [Written.bool.inj h]
    | _ => simp [written] at h
  | .number n, w, h => by
    cases w with
    | number m =>
      rw [written, written] at h
      rw [Number.numeral_injective (Written.numeral.inj h)]
    | _ => simp [written] at h
  | .string s, w, h => by
    cases w with
    | string t =>
      rw [written, written] at h
      rw [glyphs_injective (Written.string.inj h)]
    | _ => simp [written] at h
  | .array vs, w, h => by
    cases w with
    | array ws =>
      rw [written, written] at h
      rw [writtenItems_injective (Written.array.inj h)]
    | _ => simp [written] at h
  | .object ms, w, h => by
    cases w with
    | object ns =>
      rw [written, written] at h
      rw [writtenMembers_injective (Written.object.inj h)]
    | _ => simp [written] at h

/-- The shapes of items determine them. -/
theorem writtenItems_injective : ∀ {vs ws : List Json}, writtenItems vs = writtenItems ws → vs = ws
  | [], [], _ => rfl
  | [], w :: ws, h => by
    cases h
  | v :: vs, [], h => by
    cases h
  | v :: vs, w :: ws, h => by
    rw [writtenItems, writtenItems] at h
    obtain ⟨hhead, htail⟩ := List.cons.inj h
    rw [written_injective hhead, writtenItems_injective htail]

/-- The shapes of members determine them. -/
theorem writtenMembers_injective :
    ∀ {vs ws : List (String × Json)}, writtenMembers vs = writtenMembers ws → vs = ws
  | [], [], _ => rfl
  | [], (k, w) :: ws, h => by
    cases h
  | (k, v) :: vs, [], h => by
    cases h
  | (k, v) :: vs, (k', w) :: ws, h => by
    rw [writtenMembers, writtenMembers] at h
    obtain ⟨hhead, htail⟩ := List.cons.inj h
    obtain ⟨hkey, hvalue⟩ := Prod.mk.inj hhead
    rw [glyphs_injective hkey, written_injective hvalue, writtenMembers_injective htail]

end

/-- **Different values have different texts.** -/
theorem compact_injective : Function.Injective compact := by
  intro v w h
  have hshape : some v.written = some w.written := by
    rw [← ofText?_compact, ← ofText?_compact, h]
  exact written_injective (Option.some.inj hshape)

end Json
end AnalysisRunner
