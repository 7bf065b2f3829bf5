import AnalysisRunner.Number.Binary64

/-!
# The fewest digits that read back

The decimal text of a binary number has as few digits as can be read back as the
same number, and among those the digits nearest to it; of two that are equally near,
the even ones.

A number rounds back to itself exactly from an interval around it, reaching half
way to each neighbour; the ends belong to it when its mantissa is even.  For one,
two, … seventeen digits the value's two neighbours on that decimal grid are
tested against the interval in exact arithmetic, and the first grid with a hit
wins.  If any point of a grid lies in the interval, one of those two neighbours
does, so no shorter text is missed.
-/

namespace AnalysisRunner

/-- The decimal `digits * 10 ^ exponent`. -/
structure Decimal where
  digits : Nat
  exponent : Int
  deriving DecidableEq, Repr

namespace Decimal

/-- Decimals with a positive denominator, compared as `a / b ≤ c / d`. -/
def ratioLE (x y : Nat × Nat) : Bool :=
  x.1 * y.2 ≤ y.1 * x.2

/-- `10 ^ exponent` times a natural, as a ratio. -/
def scale (n : Nat) (exponent : Int) : Nat × Nat :=
  if 0 ≤ exponent then (n * Nat.pow 10 exponent.toNat, 1) else (n, Nat.pow 10 (-exponent).toNat)

/-- The interval of reals that round to `mantissa * 2 ^ exponent`, in units of a
quarter of `2 ^ exponent`: below a power of two the lower neighbour is nearer. -/
def quarterBounds (x : Binary64) : Nat × Nat :=
  let down := if x.mantissa = Nat.pow 2 52 ∧ -1074 < x.exponent then 1 else 2
  (4 * x.mantissa - down, 4 * x.mantissa + 2)

/-- A count of quarter units as a ratio. -/
def quarters (x : Binary64) (n : Nat) : Nat × Nat :=
  let r := Binary64.multiple n x.exponent
  (r.1, r.2 * 4)

/-- Whether a ratio reads back as the given number. -/
def readsBack (x : Binary64) (r : Nat × Nat) : Bool :=
  let low := quarters x (quarterBounds x).1
  let high := quarters x (quarterBounds x).2
  if x.mantissa % 2 = 0 then ratioLE low r && ratioLE r high
  else !ratioLE r low && !ratioLE high r

/-- The lower of two neighbours on a grid or the upper one: the nearer one, and the
even one if a value is half way. -/
def nearer (v : Nat × Nat) (exponent : Int) (below : Nat) : Nat :=
  let twice := (2 * v.1, v.2)
  let middle := scale (2 * below + 1) exponent
  if !ratioLE middle twice then below
  else if !ratioLE twice middle then below + 1
  else if below % 2 = 0 then below else below + 1

/-- The neighbours of the value on the grid of multiples of `10 ^ exponent` that
read back, the nearer one if both do. -/
def onGrid? (x : Binary64) (exponent : Int) : Option Nat :=
  let v := x.ratio
  let unit := scale 1 exponent
  let below := v.1 * unit.2 / (v.2 * unit.1)
  let lowHit := readsBack x (scale below exponent)
  let highHit := readsBack x (scale (below + 1) exponent)
  match lowHit, highHit with
  | true, true => some (nearer v exponent below)
  | true, false => some below
  | false, true => some (below + 1)
  | false, false => none

/-- The number of decimal digits of a natural. -/
def digitCount (n : Nat) : Nat :=
  (Nat.toDigits 10 n).length

/-- The exponent of the leading digit: the value is at least `10` to this power
and below the next one. -/
def leadExponent (x : Binary64) : Int :=
  let v := x.ratio
  let guess : Int := (digitCount v.1 : Int) - (digitCount v.2 : Int)
  if ratioLE (scale 1 guess) v then guess else guess - 1

/-- The first hit among grids of growing fineness. -/
def search (x : Binary64) (lead : Int) : Nat → Nat → Option Decimal
  | 0, _ => none
  | fuel + 1, count =>
    let exponent := lead - (count : Int) + 1
    match onGrid? x exponent with
    | some digits => some ⟨digits, exponent⟩
    | none => search x lead fuel (count + 1)

/-- Zeros at the end of the digits move into the exponent. -/
def trim : Nat → Decimal → Decimal
  | 0, d => d
  | fuel + 1, d =>
    if d.digits ≠ 0 ∧ d.digits % 10 = 0 then trim fuel ⟨d.digits / 10, d.exponent + 1⟩ else d

/-- The shortest decimal that reads back as the magnitude of a number. -/
def shortest (x : Binary64) : Decimal :=
  if x.isZero then ⟨0, 0⟩
  else
    match search x (leadExponent x) 17 1 with
    | some d => trim 20 d
    | none => ⟨0, 0⟩

end Decimal
end AnalysisRunner
