import Mathlib.Data.List.Basic
import AnalysisRunner.Json.Written

/-!
# Numerals are read as they are written

The text of a number is the text of a numeral (`Number.numeral`), and that numeral is
what reading the text finds.

A numeral has up to four parts: sign, whole part, fraction and exponent.  Reading takes
them one after the other, and each part ends where the next character cannot continue
it.  So each part has one lemma, about the part followed by anything that does not
continue it, and `readNumeral_chars` puts them together.

* `Numeral.IsWritten` says which numerals are written: no leading zeros, and no empty
  parts but a missing fraction or exponent.
* `Written.Ends` says what may follow a numeral.
-/

namespace AnalysisRunner

/-! ## 1. Digits -/

namespace Numeral

theorem digitsValue_eq (digits : List Char) :
    digitsValue digits = Nat.ofDigitChars 10 digits 0 := by
  unfold digitsValue Nat.ofDigitChars
  congr 1
  funext n c
  rw [Nat.mul_comm]
  rfl

/-- The digits of a natural have its value. -/
theorem digitsValue_natChars (n : Nat) : digitsValue (Json.natChars n) = n := by
  rw [digitsValue_eq]
  exact Nat.ofDigitChars_ten_toDigits

end Numeral

namespace Json

theorem isDigit_of_mem_natChars {n : Nat} {c : Char} (h : c ∈ natChars n) :
    Written.isDigit c = true := by
  have hdigit : c.isDigit = true := Nat.isDigit_of_mem_toDigits (by decide) (by decide) h
  simpa [Char.isDigit, Written.isDigit, Char.le_def] using hdigit

theorem natChars_ne_nil (n : Nat) : natChars n ≠ [] :=
  Nat.toDigits_ne_nil

/-- Only zero begins with a zero. -/
theorem head?_natChars {n : Nat} (hn : n ≠ 0) : (natChars n).head? ≠ some '0' := by
  unfold natChars
  induction n using Nat.base_induction 10 (by decide) with
  | single m hm =>
    rw [Nat.toDigits_of_lt_base hm, List.head?_cons]
    intro h
    exact hn (Nat.digitChar_eq_zero.mp (Option.some.inj h))
  | digit m k hk hm ih =>
    rw [← Nat.toDigits_append_toDigits (by decide) hm hk,
      List.head?_append_of_ne_nil _ Nat.toDigits_ne_nil]
    exact ih (Nat.ne_of_gt hm)

end Json

/-! ## 2. Numerals as text -/

namespace Numeral

/-- The text of a fraction, with its point. -/
def fractionChars : List Char → List Char
  | [] => []
  | digits => '.' :: digits

/-- The text of an exponent, with its letter and always with a sign. -/
def exponentChars : Option (Bool × List Char) → List Char
  | none => []
  | some (negative, digits) => 'e' :: (if negative then '-' else '+') :: digits

/-- The text of a numeral. -/
def chars (n : Numeral) : List Char :=
  (if n.negative then ['-'] else []) ++
    (n.whole ++ (fractionChars n.fraction ++ exponentChars n.exponent))

/-- The numerals that are written. -/
structure IsWritten (n : Numeral) : Prop where
  whole_ne_nil : n.whole ≠ []
  whole : ∀ c ∈ n.whole, Written.isDigit c = true
  head : n.whole = ['0'] ∨ n.whole.head? ≠ some '0'
  fraction : ∀ c ∈ n.fraction, Written.isDigit c = true
  exponent : ∀ x ∈ n.exponent, x.2 ≠ [] ∧ ∀ c ∈ x.2, Written.isDigit c = true

end Numeral

namespace Written

/-! ## 3. Reading the parts of a numeral -/

/-- What may follow a numeral: a character that does not continue it, or nothing. -/
def Ends (rest : List Char) : Prop :=
  ∀ c ∈ rest.head?, isDigit c = false ∧ c ≠ '.' ∧ c ≠ 'e' ∧ c ≠ 'E'

theorem readDigits_append {digits rest : List Char} (hdigits : ∀ c ∈ digits, isDigit c = true)
    (hrest : ∀ c ∈ rest.head?, isDigit c = false) :
    readDigits (digits ++ rest) = (digits, rest) := by
  have hstop : rest.takeWhile isDigit = [] ∧ rest.dropWhile isDigit = rest := by
    cases rest with
    | nil => exact ⟨rfl, rfl⟩
    | cons c cs =>
      have hc := hrest c rfl
      rw [List.takeWhile_cons, List.dropWhile_cons, hc]
      exact ⟨rfl, rfl⟩
  rw [readDigits, List.takeWhile_append_of_pos hdigits, List.dropWhile_append_of_pos hdigits,
    hstop.1, hstop.2, List.append_nil]

theorem readWhole_append {digits rest : List Char} (hne : digits ≠ [])
    (hdigits : ∀ c ∈ digits, isDigit c = true)
    (hhead : digits = ['0'] ∨ digits.head? ≠ some '0')
    (hrest : ∀ c ∈ rest.head?, isDigit c = false) :
    readWhole (digits ++ rest) = some (digits, rest) := by
  rcases hhead with rfl | hhead
  · rfl
  · obtain ⟨c, cs, rfl⟩ := List.exists_cons_of_ne_nil hne
    have hc : c ≠ '0' := fun h => hhead (by rw [h, List.head?_cons])
    have hread := readDigits_append hdigits hrest
    rw [List.cons_append] at hread ⊢
    rw [readWhole, if_pos (hdigits c (List.mem_cons_self ..)), hread]
    exact fun h => hc h

theorem readFraction_append {digits rest : List Char} (hdigits : ∀ c ∈ digits, isDigit c = true)
    (hrest : ∀ c ∈ rest.head?, isDigit c = false ∧ c ≠ '.') :
    readFraction (Numeral.fractionChars digits ++ rest) = some (digits, rest) := by
  cases digits with
  | nil =>
    rw [Numeral.fractionChars, List.nil_append]
    cases rest with
    | nil => rfl
    | cons c cs =>
      rw [readFraction]
      intro cs' h
      exact (hrest c rfl).2 (List.cons.inj h).1
  | cons c cs =>
    have hread := readDigits_append hdigits fun x hx => (hrest x hx).1
    rw [Numeral.fractionChars, List.cons_append, readFraction, hread]
    exact List.cons_ne_nil c cs

theorem readExponent_append {exponent : Option (Bool × List Char)} {rest : List Char}
    (hexponent : ∀ x ∈ exponent, x.2 ≠ [] ∧ ∀ c ∈ x.2, isDigit c = true)
    (hrest : ∀ c ∈ rest.head?, isDigit c = false ∧ c ≠ 'e' ∧ c ≠ 'E') :
    readExponent (Numeral.exponentChars exponent ++ rest) = some (exponent, rest) := by
  cases exponent with
  | none =>
    rw [Numeral.exponentChars, List.nil_append]
    cases rest with
    | nil => rfl
    | cons c cs =>
      obtain ⟨-, he, hE⟩ := hrest c rfl
      show (if c = 'e' ∨ c = 'E' then _ else some (none, c :: cs)) = _
      rw [if_neg (not_or.mpr ⟨he, hE⟩)]
  | some x =>
    obtain ⟨negative, digits⟩ := x
    obtain ⟨hne, hdigits⟩ := hexponent _ rfl
    obtain ⟨c, cs, rfl⟩ := List.exists_cons_of_ne_nil hne
    have hread := readDigits_append hdigits fun x hx => (hrest x hx).1
    have hpart : ∀ negative, readExponentDigits negative (c :: cs ++ rest) =
        some (some (negative, c :: cs), rest) := by
      intro negative
      rw [readExponentDigits, hread]
    cases negative
    · exact hpart false
    · exact hpart true

/-! ## 4. Reading a numeral -/

theorem readMagnitude_chars {n : Numeral} (h : n.IsWritten) {rest : List Char} (hrest : Ends rest)
    (negative : Bool) :
    readMagnitude negative (n.whole ++ (Numeral.fractionChars n.fraction ++
      Numeral.exponentChars n.exponent) ++ rest) =
      some (⟨negative, n.whole, n.fraction, n.exponent⟩, rest) := by
  have hexp := readExponent_append h.exponent fun c hc => ⟨(hrest c hc).1, (hrest c hc).2.2⟩
  -- the exponent, or what follows, does not continue the fraction
  have hafter : ∀ c ∈ (Numeral.exponentChars n.exponent ++ rest).head?,
      isDigit c = false ∧ c ≠ '.' := by
    cases n.exponent with
    | none => exact fun c hc => ⟨(hrest c hc).1, (hrest c hc).2.1⟩
    | some x =>
      intro c hc
      obtain rfl := Option.some.inj hc
      decide
  have hfrac := readFraction_append h.fraction hafter
  -- nor does the fraction continue the whole part
  have hbefore : ∀ c ∈ (Numeral.fractionChars n.fraction ++
      (Numeral.exponentChars n.exponent ++ rest)).head?, isDigit c = false := by
    cases n.fraction with
    | nil => exact fun c hc => (hafter c hc).1
    | cons d ds =>
      intro c hc
      obtain rfl := Option.some.inj hc
      decide
  have hwhole := readWhole_append h.whole_ne_nil h.whole h.head hbefore
  rw [List.append_assoc, List.append_assoc]
  simp only [readMagnitude, hwhole, hfrac, hexp, Option.bind_eq_bind, Option.bind_some,
    Option.pure_def]

/-- **A numeral is read as it is written**, whatever follows that does not continue
it. -/
theorem readNumeral_chars {n : Numeral} (h : n.IsWritten) {rest : List Char} (hrest : Ends rest) :
    readNumeral (n.chars ++ rest) = some (n, rest) := by
  have hread := readMagnitude_chars h hrest
  obtain ⟨negative, whole, fraction, exponent⟩ := n
  cases negative with
  | true => exact hread true
  | false =>
    obtain ⟨c, cs, hcs⟩ := List.exists_cons_of_ne_nil h.whole_ne_nil
    have hdigit := h.whole c (by rw [hcs]; exact List.mem_cons_self ..)
    have hc : c ≠ '-' := by
      rintro rfl
      exact absurd hdigit (by decide)
    have hread := hread false
    simp only [Numeral.chars, Bool.false_eq_true, if_false, List.nil_append]
    dsimp only at hcs hread ⊢
    rw [hcs, List.cons_append, List.cons_append] at hread ⊢
    rw [readNumeral, hread]
    intro cs' h
    exact hc (List.cons.inj h).1

end Written

/-! ## 5. The numerals of numbers -/

/-- The numeral that a decimal is written as. -/
def Decimal.numeral (negative : Bool) (d : Decimal) : Numeral :=
  let digits := Json.natChars d.digits
  let lead : Int := (digits.length : Int) + d.exponent - 1
  if d.digits = 0 then ⟨negative, ['0'], ['0'], none⟩
  else if lead < -5 ∨ 15 < lead then
    ⟨negative, digits.take 1, digits.drop 1, some (decide (lead < 0), Json.natChars lead.natAbs)⟩
  else if lead < 0 then
    ⟨negative, ['0'], List.replicate (-lead - 1).toNat '0' ++ digits, none⟩
  else
    let whole := lead.toNat + 1
    if digits.length ≤ whole then
      ⟨negative, digits ++ List.replicate (whole - digits.length) '0', ['0'], none⟩
    else ⟨negative, digits.take whole, digits.drop whole, none⟩

/-- The numeral that a number is written as. -/
def Number.numeral : Number → Numeral
  | .nat n => ⟨false, Json.natChars n.toNat, [], none⟩
  | .negSucc n => ⟨true, Json.natChars (n.val + 1), [], none⟩
  | .real x => (Decimal.shortest x).numeral x.negative

namespace Decimal

theorem chars_numeral (negative : Bool) (d : Decimal) :
    (d.numeral negative).chars = (if negative then ['-'] else []) ++ Json.decimalChars d := by
  unfold numeral Json.decimalChars
  obtain ⟨c, cs, hcs⟩ := List.exists_cons_of_ne_nil (Json.natChars_ne_nil d.digits)
  dsimp only
  by_cases hzero : d.digits = 0
  · simp only [if_pos hzero]
    rfl
  · simp only [if_neg hzero]
    split
    · -- with an exponent: a point only after more than one digit
      rw [hcs]
      cases cs with
      | nil => simp [Numeral.chars, Numeral.fractionChars, Numeral.exponentChars]
      | cons c' cs' => simp [Numeral.chars, Numeral.fractionChars, Numeral.exponentChars]
    · split
      · rw [hcs]
        have hne : ∀ k, List.replicate k '0' ++ c :: cs ≠ [] := by simp
        simp only [Numeral.chars, Numeral.exponentChars, List.append_nil]
        rw [Numeral.fractionChars]
        · rfl
        · exact hne _
      · split
        · simp [Numeral.chars, Numeral.fractionChars, Numeral.exponentChars]
        · rename_i hlong
          have hne : (Json.natChars d.digits).drop
              (((Json.natChars d.digits).length : Int) + d.exponent - 1).toNat.succ ≠ [] := by
            rw [Ne, List.drop_eq_nil_iff]
            omega
          simp only [Numeral.chars, Numeral.exponentChars, List.append_nil]
          rw [Numeral.fractionChars]
          · exact hne

theorem isWritten_numeral (negative : Bool) (d : Decimal) : (d.numeral negative).IsWritten := by
  have hdigits : ∀ c ∈ Json.natChars d.digits, Written.isDigit c = true :=
    fun c hc => Json.isDigit_of_mem_natChars hc
  have hzeros : ∀ k, ∀ c ∈ List.replicate k '0', Written.isDigit c = true := by
    intro k c hc
    rw [List.eq_of_mem_replicate hc]
    rfl
  have hnil : ∀ x ∈ (none : Option (Bool × List Char)),
      x.2 ≠ [] ∧ ∀ c ∈ x.2, Written.isDigit c = true := by
    intro x hx
    cases hx
  unfold numeral
  dsimp only
  by_cases hzero : d.digits = 0
  · rw [if_pos hzero]
    exact ⟨by simp, hzeros 1, .inl rfl, hzeros 1, hnil⟩
  · have hne := Json.natChars_ne_nil d.digits
    have hhead := Json.head?_natChars hzero
    rw [if_neg hzero]
    split
    · refine ⟨by simpa using hne, fun c hc => hdigits c (List.mem_of_mem_take hc), .inr ?_,
        fun c hc => hdigits c (List.mem_of_mem_drop hc), ?_⟩
      · rw [List.head?_take]
        simpa using hhead
      · intro x hx
        obtain rfl := Option.some.inj hx
        exact ⟨Json.natChars_ne_nil _, fun c hc => Json.isDigit_of_mem_natChars hc⟩
    · split
      · refine ⟨by simp, hzeros 1, .inl rfl, fun c hc => ?_, hnil⟩
        exact (List.mem_append.mp hc).elim (hzeros _ c) (hdigits c)
      · split
        · refine ⟨by simp [hne], fun c hc => ?_, .inr ?_, hzeros 1, hnil⟩
          · exact (List.mem_append.mp hc).elim (hdigits c) (hzeros _ c)
          · rw [List.head?_append_of_ne_nil _ hne]
            exact hhead
        · refine ⟨by simpa using hne, fun c hc => hdigits c (List.mem_of_mem_take hc), .inr ?_,
            fun c hc => hdigits c (List.mem_of_mem_drop hc), hnil⟩
          rw [List.head?_take]
          simpa using hhead

end Decimal

namespace Number

theorem chars_numeral (n : Number) : n.numeral.chars = Json.numberChars n := by
  cases n with
  | nat n =>
    simp [numeral, Numeral.chars, Numeral.fractionChars, Numeral.exponentChars, Json.numberChars]
  | negSucc n =>
    simp [numeral, Numeral.chars, Numeral.fractionChars, Numeral.exponentChars, Json.numberChars]
  | real x =>
    rw [numeral, Decimal.chars_numeral, Json.numberChars]
    cases x.negative <;> rfl

theorem isWritten_numeral (n : Number) : n.numeral.IsWritten := by
  have hwhole : ∀ (negative : Bool) (k : Nat),
      (⟨negative, Json.natChars k, [], none⟩ : Numeral).IsWritten := by
    intro negative k
    refine ⟨Json.natChars_ne_nil k, fun c hc => Json.isDigit_of_mem_natChars hc, ?_,
      fun c hc => absurd hc List.not_mem_nil, fun x hx => absurd hx (Option.not_mem_none x)⟩
    by_cases hk : k = 0
    · left
      rw [hk]
      rfl
    · exact .inr (Json.head?_natChars hk)
  cases n with
  | nat n => exact hwhole false n.toNat
  | negSucc n => exact hwhole true (n.val + 1)
  | real x => exact Decimal.isWritten_numeral x.negative _

/-- **A number is read as the numeral it is written as.** -/
theorem readNumeral_numberChars (n : Number) {rest : List Char} (hrest : Written.Ends rest) :
    Written.readNumeral (Json.numberChars n ++ rest) = some (n.numeral, rest) := by
  rw [← chars_numeral]
  exact Written.readNumeral_chars n.isWritten_numeral hrest

end Number
end AnalysisRunner
