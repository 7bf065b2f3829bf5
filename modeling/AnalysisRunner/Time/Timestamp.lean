import AnalysisRunner.Time.Calendar

/-!
# Points in time

A timestamp counts seconds from 1970-01-01T00:00:00Z and nanoseconds within the
second.  A leap second is the second before it with more than a thousand million
nanoseconds.

The text is the RFC 3339 form in UTC, with as many groups of three fraction digits
as it takes to be exact.  Reading is more liberal than writing: blanks may stand
around the parts, a year may carry a sign and then have any number of digits, the
offset may be `UTC`, and its minus may be U+2212.
-/

namespace AnalysisRunner

/-- A point in time. -/
structure Timestamp where
  seconds : Int
  nanos : Nat
  deriving DecidableEq, Repr

namespace Timestamp

/-- The first and the last year that a timestamp can fall into. -/
def minYear : Int := -262143

/-- See `minYear`. -/
def maxYear : Int := 262142

/-- Whether a count of seconds falls into the years that are represented. -/
def inRange (seconds : Int) : Bool :=
  let year := (Date.ofDays (seconds / 86400)).year
  minYear ≤ year && year ≤ maxYear

/-- The timestamp of a count of milliseconds, if it can be represented. -/
def ofMillis? (millis : Int) : Option Timestamp :=
  let seconds := millis / 1000
  if inRange seconds then some ⟨seconds, (millis % 1000).toNat * 1000000⟩ else none

/-- Milliseconds, rounded down. -/
def millis (t : Timestamp) : Int :=
  t.seconds * 1000 + (t.nanos / 1000000 : Nat)

/-! ## 1. Writing -/

/-- A natural with zeros in front, up to a width. -/
def padded (width n : Nat) : List Char :=
  let digits := Nat.toDigits 10 n
  List.replicate (width - digits.length) '0' ++ digits

/-- A year: four digits, with a sign if it is not between 0 and 9999. -/
def yearChars (year : Int) : List Char :=
  if 0 ≤ year ∧ year ≤ 9999 then padded 4 year.toNat
  else (if year < 0 then '-' else '+') :: padded 4 year.natAbs

/-- The fraction of a second: no digits, three, six or nine. -/
def fractionChars (nanos : Nat) : List Char :=
  if nanos = 0 then []
  else if nanos % 1000000 = 0 then '.' :: padded 3 (nanos / 1000000)
  else if nanos % 1000 = 0 then '.' :: padded 6 (nanos / 1000)
  else '.' :: padded 9 nanos

/-- The second of the minute and the nanoseconds that are shown: a leap second is
the sixtieth. -/
def shownSecond (second nanos : Nat) : Nat × Nat :=
  if 1000000000 ≤ nanos then (second + 1, nanos - 1000000000) else (second, nanos)

/-- The time of day as hours, minutes and seconds, with colons. -/
def clockChars (t : Timestamp) : List Char :=
  let s := (t.seconds % 86400).toNat
  let (second, _) := shownSecond (s % 60) t.nanos
  padded 2 (s / 3600) ++ ':' :: padded 2 (s / 60 % 60) ++ ':' :: padded 2 second

/-- The text of a timestamp, in UTC. -/
def text (t : Timestamp) : String :=
  let date := Date.ofDays (t.seconds / 86400)
  let (_, nanos) := shownSecond 0 t.nanos
  String.ofList <|
    yearChars date.year ++ '-' :: padded 2 date.month ++ '-' :: padded 2 date.day ++
    'T' :: t.clockChars ++ fractionChars nanos ++ ['Z']

/-! ## 2. Reading -/

/-- White space, in any script. -/
def isSpace (c : Char) : Bool :=
  let n := c.toNat
  (9 ≤ n && n ≤ 13) || n == 0x20 || n == 0x85 || n == 0xA0 || n == 0x1680 ||
  (0x2000 ≤ n && n ≤ 0x200A) || n == 0x2028 || n == 0x2029 || n == 0x202F || n == 0x205F ||
  n == 0x3000

/-- What follows the white space. -/
def skipSpace (cs : List Char) : List Char :=
  cs.dropWhile isSpace

/-- Whether a character is a decimal digit. -/
def isDigit (c : Char) : Bool :=
  '0' ≤ c && c ≤ '9'

/-- The value of digits. -/
def digitsValue (digits : List Char) : Nat :=
  digits.foldl (fun n c => n * 10 + (c.toNat - 48)) 0

/-- At least one and at most `width` digits. -/
def readDigits (width : Nat) (cs : List Char) : Option (List Char × List Char) :=
  let digits := (cs.take width).takeWhile isDigit
  if digits.isEmpty then none else some (digits, cs.drop digits.length)

/-- A number of at most `width` digits after white space. -/
def readNumber (width : Nat) (cs : List Char) : Option (Nat × List Char) :=
  (readDigits width (skipSpace cs)).map fun (digits, rest) => (digitsValue digits, rest)

/-- A year: four digits, or a sign and any number of digits. -/
def readYear (cs : List Char) : Option (Int × List Char) :=
  let cs := skipSpace cs
  match cs with
  | '-' :: rest =>
    (readDigits rest.length rest).map fun (ds, rest) => (-(digitsValue ds : Int), rest)
  | '+' :: rest =>
    (readDigits rest.length rest).map fun (ds, rest) => ((digitsValue ds : Int), rest)
  | _ => (readDigits 4 cs).map fun (ds, rest) => ((digitsValue ds : Int), rest)

/-- A separator after white space. -/
def readMark (mark : Char) (cs : List Char) : Option (List Char) :=
  match skipSpace cs with
  | c :: rest => if c = mark then some rest else none
  | [] => none

/-- A fraction of a second, if a point follows: nine digits count, in nanoseconds. -/
def readFraction : List Char → Option (Nat × List Char)
  | '.' :: rest =>
    (readDigits 9 rest).map fun (ds, rest) =>
      (digitsValue ds * Nat.pow 10 (9 - ds.length), rest.dropWhile isDigit)
  | cs => some (0, cs)

/-- The letters `UTC`, in either case. -/
def readUtc? : List Char → Option (List Char)
  | a :: b :: c :: rest =>
    if a.toLower = 'u' ∧ b.toLower = 't' ∧ c.toLower = 'c' then some rest else none
  | _ => none

/-- The offset after its sign, in seconds: hours, then minutes below sixty, with
colons or white space between. -/
def readOffsetDigits : List Char → Option (Nat × List Char)
  | h1 :: h2 :: rest =>
    if isDigit h1 ∧ isDigit h2 then
      match rest.dropWhile fun c => c == ':' || isSpace c with
      | m1 :: m2 :: rest =>
        if isDigit m1 ∧ isDigit m2 ∧ digitsValue [m1] < 6 then
          some (digitsValue [h1, h2] * 3600 + digitsValue [m1, m2] * 60, rest)
        else none
      | _ => none
    else none
  | _ => none

/-- An offset from UTC, in seconds. -/
def readOffset (cs : List Char) : Option (Int × List Char) :=
  let cs := skipSpace cs
  match readUtc? cs with
  | some rest => some (0, rest)
  | none =>
    match cs with
    | 'Z' :: rest => some (0, rest)
    | 'z' :: rest => some (0, rest)
    | '+' :: rest => (readOffsetDigits rest).map fun (n, rest) => ((n : Int), rest)
    | '-' :: rest => (readOffsetDigits rest).map fun (n, rest) => (-(n : Int), rest)
    | '−' :: rest => (readOffsetDigits rest).map fun (n, rest) => (-(n : Int), rest)
    | _ => none

/-- The mark between date and time. -/
def readDivider : List Char → Option (List Char)
  | c :: rest => if c = 'T' ∨ c = 't' ∨ c = ' ' then some rest else none
  | [] => none

/-- The timestamp of a date, a time of day and an offset, if the parts are in
range. -/
def ofParts? (date : Date) (hour minute second nanos : Nat) (offset : Int) : Option Timestamp :=
  if hour ≤ 23 ∧ minute ≤ 59 ∧ second ≤ 60 ∧ offset.natAbs < 86400 ∧
      minYear ≤ date.year ∧ date.year ≤ maxYear then
    let leap := if second = 60 then 1 else 0
    let clock := hour * 3600 + minute * 60 + (second - leap)
    let seconds := date.toDays * 86400 + (clock : Int) - offset
    if inRange seconds then some ⟨seconds, nanos + leap * 1000000000⟩ else none
  else none

/-- The timestamp that a text spells. -/
def ofText? (text : String) : Option Timestamp := do
  let (year, cs) ← readYear text.toList
  let (month, cs) ← readNumber 2 (← readMark '-' cs)
  let (day, cs) ← readNumber 2 (← readMark '-' cs)
  let (hour, cs) ← readNumber 2 (← readDivider cs)
  let (minute, cs) ← readNumber 2 (← readMark ':' cs)
  let (second, cs) ← readNumber 2 (← readMark ':' cs)
  let (nanos, cs) ← readFraction cs
  let (offset, cs) ← readOffset cs
  if (skipSpace cs).isEmpty then
    ofParts? (← Date.ofParts? year month day) hour minute second nanos offset
  else none

end Timestamp
end AnalysisRunner
