/-!
# Binary numbers of sixty-four bits

A finite number in the 64-bit binary format is a sign, a natural `mantissa` below
`2 ^ 53` and a power of two.  Arithmetic here is exact arithmetic on naturals
followed by one rounding, `ofRatio`, which takes the nearest such number and on a
tie the one with the even mantissa.  Nothing goes through machine floating point,
so every operation is a definition about which lemmas can be stated.

There is no infinity and no not-a-number: an operation whose result is out of
range answers `none`.
-/

namespace AnalysisRunner

/-- Which mantissas and exponents the format has: a mantissa of fifty-three digits with
an exponent from `-1074` to `971`, or a shorter one with the least exponent. -/
def Binary64.IsFormat (mantissa : Nat) (exponent : Int) : Prop :=
  mantissa < Nat.pow 2 53 ∧ -1074 ≤ exponent ∧ exponent ≤ 971 ∧
    (Nat.pow 2 52 ≤ mantissa ∨ exponent = -1074)

instance (mantissa : Nat) (exponent : Int) : Decidable (Binary64.IsFormat mantissa exponent) :=
  inferInstanceAs (Decidable (_ ∧ _ ∧ _ ∧ _))

/-- The number `± mantissa * 2 ^ exponent`.  Each number is written in one way only, zero
with either sign. -/
structure Binary64 where
  negative : Bool
  mantissa : Nat
  exponent : Int
  format : Binary64.IsFormat mantissa exponent
  deriving DecidableEq, Repr

namespace Binary64

/-- Zero, with a sign. -/
def zero (negative : Bool) : Binary64 :=
  ⟨negative, 0, -1074, by decide⟩

/-- The number of binary digits of a natural. -/
def bitLength (n : Nat) : Nat :=
  if n = 0 then 0 else n.log2 + 1

/-- The quotient rounded to the nearest natural, ties to the even one. -/
def roundDiv (num den : Nat) : Nat :=
  let q := num / den
  let r := num % den
  if 2 * r < den then q else if den < 2 * r then q + 1 else if q % 2 = 0 then q else q + 1

/-- `num / den` measured in units of `2 ^ exponent` and rounded. -/
def scaled (num den : Nat) (exponent : Int) : Nat :=
  if 0 ≤ exponent then roundDiv num (den * Nat.pow 2 exponent.toNat)
  else roundDiv (num * Nat.pow 2 (-exponent).toNat) den

/-- The exponent at which the ratio has a mantissa of fifty-three digits, or the
least exponent if the ratio is smaller. -/
def exponentFor (num den : Nat) : Int :=
  let guess : Int := (bitLength num : Int) - (bitLength den : Int) - 53
  let fits (e : Int) : Bool :=
    if 0 ≤ e then num < den * Nat.pow 2 (e.toNat + 53)
    else num * Nat.pow 2 (-e).toNat < den * Nat.pow 2 53
  max (-1074) (if fits guess then guess else guess + 1)

/-- The number nearest to `num / den`; `none` if it is out of range. -/
def ofRatio (negative : Bool) (num den : Nat) : Option Binary64 :=
  if num = 0 then some (zero negative)
  else
    let e := exponentFor num den
    let m := scaled num den e
    -- rounding up may reach the next power of two
    let (m, e) := if m = Nat.pow 2 53 then (Nat.pow 2 52, e + 1) else (m, e)
    if h : IsFormat m e then some ⟨negative, m, e, h⟩ else none

/-- The number nearest to a natural. -/
def ofNat (n : Nat) : Option Binary64 :=
  ofRatio false n 1

/-- `2 ^ exponent` times a natural, as a ratio of naturals. -/
def multiple (n : Nat) (exponent : Int) : Nat × Nat :=
  if 0 ≤ exponent then (n * Nat.pow 2 exponent.toNat, 1) else (n, Nat.pow 2 (-exponent).toNat)

/-- The magnitude as a ratio of naturals. -/
def ratio (x : Binary64) : Nat × Nat :=
  multiple x.mantissa x.exponent

/-- Whether a number is zero, of either sign. -/
def isZero (x : Binary64) : Bool :=
  x.mantissa = 0

/-- The rounded product. -/
def mul (x y : Binary64) : Option Binary64 :=
  ofRatio (x.negative != y.negative) (x.ratio.1 * y.ratio.1) (x.ratio.2 * y.ratio.2)

/-- The rounded quotient; `none` for a zero divisor. -/
def div (x y : Binary64) : Option Binary64 :=
  if y.isZero then none
  else ofRatio (x.negative != y.negative) (x.ratio.1 * y.ratio.2) (x.ratio.2 * y.ratio.1)

/-- The opposite number. -/
def neg (x : Binary64) : Binary64 :=
  ⟨!x.negative, x.mantissa, x.exponent, x.format⟩

/-- The sixty-four bits that encode a number: sign, biased exponent, fraction. -/
def bits (x : Binary64) : UInt64 :=
  let sign : Nat := if x.negative then Nat.pow 2 63 else 0
  if x.mantissa < Nat.pow 2 52 then (sign + x.mantissa).toUInt64
  else (sign + (x.exponent + 1075).toNat * Nat.pow 2 52 + (x.mantissa - Nat.pow 2 52)).toUInt64

end Binary64
end AnalysisRunner
