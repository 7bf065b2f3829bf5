import Mathlib.Data.List.Forall2
import AnalysisRunner.Settings.Environment

/-!
# What variables spell

A variable of the environment is a text.  `SpellsNumber` says which texts are numbers and of which
value, without a word on how they are read, and `SpellsOn` which texts turn a flag on.  Reading
answers to both (`number?_eq_some_iff`, `isOn_iff`): a text with a sign other than a plus, with a
blank, or without a digit is no number, and neither is one that needs more than sixty-four bits,
however many zeros it begins with.
-/

namespace AnalysisRunner
namespace Environment

/-- Whether a text spells a number: decimal digits, at least one, which a plus sign may precede. -/
def SpellsNumber (text : String) (n : Nat) : Prop :=
  ∃ sign digits, text.toList = sign ++ digits ∧ (sign = [] ∨ sign = ['+']) ∧ digits ≠ [] ∧
    (∀ c ∈ digits, c.isDigit = true) ∧ Nat.ofDigitChars 10 digits 0 = n

/-- Whether a text spells a flag that is on: a one, or the word for truth in letters of either
case. -/
def SpellsOn (text : String) : Prop :=
  text = "1" ∨ List.Forall₂ (fun c letter => c = letter ∨ c = letter.toUpper)
    text.toList "true".toList

variable {c d : Char} {cs : List Char} {text : String}

theorem digit?_eq (c : Char) : digit? c = if c.isDigit then some (c.toNat - 48) else none := by
  simp [digit?, Char.isDigit, Char.le_def]

/-- Digits have a value if they are digits, and then that of the numeral. -/
theorem digitsValue?_eq (cs : List Char) :
    digitsValue? cs = if cs.all Char.isDigit then some (Nat.ofDigitChars 10 cs 0) else none := by
  unfold digitsValue?
  generalize 0 = n
  induction cs generalizing n with
  | nil => simp
  | cons c cs ih =>
    rw [List.foldlM_cons, digit?_eq]
    cases hc : c.isDigit with
    | false => simp [hc]
    | true =>
      simp only [if_true, Option.map_some, Option.bind_eq_bind, Option.bind_some, List.all_cons, hc,
        Bool.true_and]
      rw [ih, Nat.ofDigitChars_cons, Nat.mul_comm n 10]
      rfl

/-- The number that digits alone spell, in the range of sixty-four bits. -/
def wordOf? (digits : List Char) : Option UInt64 :=
  if digits.isEmpty then none
  else (digitsValue? digits).bind fun n => if n < Nat.pow 2 64 then some n.toUInt64 else none

theorem wordOf?_eq_some_iff {n : UInt64} : wordOf? cs = some n ↔
    cs ≠ [] ∧ (∀ c ∈ cs, c.isDigit = true) ∧ Nat.ofDigitChars 10 cs 0 = n.toNat := by
  have hword : ∀ m : Nat,
      (if m < Nat.pow 2 64 then some m.toUInt64 else none) = some n ↔ m = n.toNat := by
    intro m
    constructor
    · intro h
      split at h
      · rename_i hm
        rw [← Option.some.inj h]
        exact (Nat.mod_eq_of_lt hm).symm
      · cases h
    · rintro rfl
      rw [if_pos n.toNat_lt, Nat.toUInt64, UInt64.ofNat_toNat]
  rw [wordOf?, digitsValue?_eq]
  by_cases hne : cs = []
  · simp [hne]
  · rw [if_neg (by simpa using hne), ← List.all_eq_true]
    cases hall : cs.all Char.isDigit with
    | false => simp
    | true => simp [hne, hword]

theorem number?_of_plus (h : text.toList = '+' :: cs) : number? text = wordOf? cs := by
  unfold number? wordOf?
  split
  · rename_i rest hrest
    obtain ⟨-, rfl⟩ := List.cons.inj (h.symm.trans hrest)
    dsimp only
    cases digitsValue? cs <;> rfl
  · rename_i hplain
    exact absurd h (hplain cs)

theorem number?_of_plain (h : ∀ cs, text.toList ≠ '+' :: cs) :
    number? text = wordOf? text.toList := by
  unfold number? wordOf?
  split
  · rename_i rest hrest
    exact absurd hrest (h rest)
  · dsimp only
    cases digitsValue? text.toList <;> rfl

/-- **A number is read exactly where one is spelled.** -/
theorem number?_eq_some_iff {n : UInt64} : number? text = some n ↔ SpellsNumber text n.toNat := by
  by_cases hplus : ∃ cs, text.toList = '+' :: cs
  · obtain ⟨cs, hcs⟩ := hplus
    rw [number?_of_plus hcs, wordOf?_eq_some_iff]
    constructor
    · exact fun h => ⟨['+'], cs, hcs, .inr rfl, h⟩
    · rintro ⟨sign, digits, htext, rfl | rfl, hne, hdigits, hvalue⟩
      · -- a plus sign is no digit
        have hmem : '+' ∈ digits := by
          rw [List.nil_append, hcs] at htext
          rw [← htext]
          exact List.mem_cons_self ..
        exact absurd (hdigits _ hmem) (by decide)
      · obtain ⟨-, rfl⟩ := List.cons.inj (hcs.symm.trans htext)
        exact ⟨hne, hdigits, hvalue⟩
  · have hplain : ∀ cs, text.toList ≠ '+' :: cs := fun cs hcs => hplus ⟨cs, hcs⟩
    rw [number?_of_plain hplain, wordOf?_eq_some_iff]
    constructor
    · exact fun h => ⟨[], text.toList, rfl, .inl rfl, h⟩
    · rintro ⟨sign, digits, htext, rfl | rfl, h⟩
      · rw [htext]
        exact h
      · exact absurd htext (hplain digits)

theorem toLower_eq_iff (hd : d.isLower = true) : c.toLower = d ↔ c = d ∨ c = d.toUpper := by
  have hletter : (decide (d.val ≥ 'a'.val) && decide (d.val ≤ 'z'.val)) = true := hd
  rw [Bool.and_eq_true, decide_eq_true_eq, decide_eq_true_eq] at hletter
  have hlow : 97 ≤ d.val.toNat := hletter.1
  have hhigh : d.val.toNat ≤ 122 := hletter.2
  -- the distance between the cases, and the way back modulo the size of a word
  have hdown : ('a'.val - 'A'.val).toNat = 32 := rfl
  have hup : ('A'.val - 'a'.val).toNat = 4294967264 := rfl
  delta Char.toUpper Char.toLower
  rw [dif_pos hletter]
  split
  · rename_i hc
    have hupper : 65 ≤ c.val.toNat ∧ c.val.toNat ≤ 90 := hc
    simp only [Char.ext_iff, ← UInt32.toNat_inj, UInt32.toNat_add, hdown, hup]
    omega
  · rename_i hc
    have hupper : ¬ (65 ≤ c.val.toNat ∧ c.val.toNat ≤ 90) := hc
    simp only [Char.ext_iff, ← UInt32.toNat_inj, UInt32.toNat_add, hup]
    omega

/-- **A flag is on exactly where that is spelled.** -/
theorem isOn_iff : isOn text = true ↔ SpellsOn text := by
  have hletters : ∀ {letters : List Char}, (∀ d ∈ letters, d.isLower = true) → ∀ cs : List Char,
      cs.map Char.toLower = letters ↔
        List.Forall₂ (fun c letter => c = letter ∨ c = letter.toUpper) cs letters := by
    intro letters hlower cs
    induction cs generalizing letters with
    | nil => cases letters <;> simp
    | cons c cs ih =>
      cases letters with
      | nil => simp
      | cons d letters =>
        rw [List.map_cons, List.cons.injEq, List.forall₂_cons,
          ih fun e he => hlower e (by simp [he]), toLower_eq_iff (hlower d (by simp))]
  rw [isOn, Bool.or_eq_true, decide_eq_true_eq, decide_eq_true_eq, SpellsOn, or_comm,
    ← hletters (List.all_eq_true.mp rfl), ← String.toList_map, String.toList_inj]

end Environment

end AnalysisRunner
