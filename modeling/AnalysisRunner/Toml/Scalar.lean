import AnalysisRunner.Number.Binary64
import AnalysisRunner.Time.Calendar
import AnalysisRunner.Toml.Value

/-!
# TOML scalars that are not quoted

A scalar without quotes is a word: the characters up to the next blank, comment,
bracket, comma or quote.  A word is read as a truth value, an integer, a binary
fraction or a point in time, in that order, and a word that is none of them is no
value.
-/

namespace AnalysisRunner
namespace Toml

/-- Whether a character is a decimal digit. -/
def isDigit (c : Char) : Bool :=
  '0' ≤ c && c ≤ '9'

/-- Whether a character is a hexadecimal digit. -/
def isHexDigit (c : Char) : Bool :=
  isDigit c || ('a' ≤ c && c ≤ 'f') || ('A' ≤ c && c ≤ 'F')

/-- The value of a digit. -/
def digitValue (c : Char) : Nat :=
  if isDigit c then c.toNat - 48
  else if 'a' ≤ c ∧ c ≤ 'f' then c.toNat - 87
  else c.toNat - 55

/-- The value of digits in a base. -/
def digitsValue (base : Nat) (digits : List Char) : Nat :=
  digits.foldl (fun n c => n * base + digitValue c) 0

/-! ## 1. Integers -/

/-- Digits of a kind with single underscores between them: the digits, if the word
is not empty and has nothing else in it. -/
def grouped? (isDigit : Char → Bool) : List Char → Option (List Char)
  | [] => none
  | [c] => if isDigit c then some [c] else none
  | c :: '_' :: rest =>
    if isDigit c then (grouped? isDigit rest).map (c :: ·) else none
  | c :: rest =>
    if isDigit c then (grouped? isDigit rest).map (c :: ·) else none

/-- Decimal digits that do not begin with a needless zero. -/
def decimal? (word : List Char) : Option Nat :=
  match grouped? isDigit word with
  | some ('0' :: _ :: _) => none
  | some digits => some (digitsValue 10 digits)
  | none => none

/-- A sign in front, and what follows. -/
def unsign : List Char → Bool × List Char
  | '-' :: rest => (true, rest)
  | '+' :: rest => (false, rest)
  | word => (false, word)

/-- An integer in any of its spellings. -/
def anyInteger? : List Char → Option Int
  | '0' :: 'x' :: rest => (grouped? isHexDigit rest).map fun ds => (digitsValue 16 ds : Int)
  | '0' :: 'o' :: rest =>
    (grouped? (fun c => '0' ≤ c && c ≤ '7') rest).map fun ds => (digitsValue 8 ds : Int)
  | '0' :: 'b' :: rest =>
    (grouped? (fun c => c == '0' || c == '1') rest).map fun ds => (digitsValue 2 ds : Int)
  | word =>
    let (negative, word) := unsign word
    (decimal? word).map fun n => if negative then -(n : Int) else (n : Int)

/-- An integer that fits a hundred and twenty-eight bits, with or without a sign. -/
def integer? (word : List Char) : Option Int :=
  match anyInteger? word with
  | some i => if -(Nat.pow 2 127 : Nat) ≤ i ∧ i < (Nat.pow 2 128 : Nat) then some i else none
  | none => none

/-! ## 2. Binary fractions -/

/-- The part of a word before a character that passes a test, and the part after
it, if there is such a character. -/
def cut? (isMark : Char → Bool) (word : List Char) : Option (List Char × List Char) :=
  match word.dropWhile fun c => !isMark c with
  | _ :: rest => some (word.takeWhile fun c => !isMark c, rest)
  | [] => none

/-- Digits and exponent of a word: a whole part, then a fraction, an exponent, or
both. -/
def fraction? (word : List Char) : Option (Nat × Int) := do
  let isE (c : Char) : Bool := c == 'e' || c == 'E'
  let (mantissa, exponent) ← match cut? isE word with
    | some (mantissa, rest) =>
      let (negative, digits) := unsign rest
      let e := digitsValue 10 (← grouped? isDigit digits)
      pure (mantissa, some (if negative then -(e : Int) else (e : Int)))
    | none => pure (word, none)
  match cut? (· == '.') mantissa with
  | some (whole, fraction) =>
    let _ ← decimal? whole
    let whole ← grouped? isDigit whole
    let fraction ← grouped? isDigit fraction
    pure (digitsValue 10 (whole ++ fraction), exponent.getD 0 - (fraction.length : Int))
  | none =>
    match exponent with
    | some e => pure (← decimal? mantissa, e)
    | none => none

/-- Whether a decimal is in the range of the 64-bit binary numbers.  The number of
digits bounds the work: far outside the range the answer is plain. -/
def isFinite (digits : Nat) (exponent : Int) : Bool :=
  let size : Int := ((Nat.toDigits 10 digits).length : Int) + exponent
  if digits = 0 ∨ size < 300 then true
  else if 320 < size then false
  else
    let r : Nat × Nat :=
      if 0 ≤ exponent then (digits * Nat.pow 10 exponent.toNat, 1)
      else (digits, Nat.pow 10 (-exponent).toNat)
    (Binary64.ofRatio false r.1 r.2).isSome

/-- Whether a word spells a binary fraction. -/
def isReal (word : List Char) : Bool :=
  let (_, magnitude) := unsign word
  if magnitude = ['i', 'n', 'f'] ∨ magnitude = ['n', 'a', 'n'] then true
  else
    match fraction? magnitude with
    | some (digits, exponent) => isFinite digits exponent
    | none => false

/-! ## 3. Points in time -/

/-- A number of exactly so many digits, and what follows. -/
def fixedDigits? (count : Nat) (word : List Char) : Option (Nat × List Char) :=
  let digits := word.takeWhile isDigit
  if digits.length = count then some (digitsValue 10 digits, word.drop count) else none

/-- What follows a mark. -/
def after? (mark : Char) : List Char → Option (List Char)
  | c :: rest => if c = mark then some rest else none
  | [] => none

/-- A date, and what follows. -/
def date? (word : List Char) : Option (List Char) := do
  let (year, rest) ← fixedDigits? 4 word
  let (month, rest) ← fixedDigits? 2 (← after? '-' rest)
  let (day, rest) ← fixedDigits? 2 (← after? '-' rest)
  let _ ← Date.ofParts? (year : Int) month day
  pure rest

/-- Seconds with a fraction, if they follow, and what follows them. -/
def seconds? (word : List Char) : Option (List Char) :=
  match word with
  | ':' :: rest => do
    let (second, rest) ← fixedDigits? 2 rest
    if 60 < second then none
    else
      match rest with
      | '.' :: rest =>
        let digits := rest.takeWhile isDigit
        if digits.isEmpty then none else some (rest.dropWhile isDigit)
      | rest => some rest
  | rest => some rest

/-- A time of day, and what follows. -/
def clock? (word : List Char) : Option (List Char) := do
  let (hour, rest) ← fixedDigits? 2 word
  let (minute, rest) ← fixedDigits? 2 (← after? ':' rest)
  if 23 < hour ∨ 59 < minute then none else seconds? rest

/-- Whether a word is an offset from UTC, or nothing. -/
def isOffset : List Char → Bool
  | [] => true
  | [c] => c == 'Z' || c == 'z'
  | c :: rest =>
    if c = '+' ∨ c = '-' then
      match (do
        let (hour, rest) ← fixedDigits? 2 rest
        let (minute, rest) ← fixedDigits? 2 (← after? ':' rest)
        pure (decide (hour ≤ 23 ∧ minute ≤ 59) && rest.isEmpty) : Option Bool) with
      | some ok => ok
      | none => false
    else false

/-- Whether a word spells a date, a time of day, or both with or without an
offset. -/
def isMoment (word : List Char) : Bool :=
  match date? word with
  | some [] => true
  | some (c :: rest) =>
    if c = 'T' ∨ c = 't' ∨ c = ' ' then
      match clock? rest with
      | some rest => isOffset rest
      | none => false
    else false
  | none =>
    match clock? word with
    | some rest => rest.isEmpty
    | none => false

/-- The value of a word. -/
def scalar? (word : List Char) : Option Value :=
  if word = ['t', 'r', 'u', 'e'] then some (.boolean true)
  else if word = ['f', 'a', 'l', 's', 'e'] then some (.boolean false)
  else
    match integer? word with
    | some i => some (.integer i)
    | none =>
      if isReal word then some (.real (String.ofList word))
      else if isMoment word then some (.moment (String.ofList word))
      else none

end Toml
end AnalysisRunner
