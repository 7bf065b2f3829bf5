import AnalysisRunner.Json.Basic

/-!
# JSON texts as written

Reading a text has two parts.  The first finds the shape: where values, items and
members begin and end, with every numeral digit by digit, every string escape by
escape, and members in the order written, repeated or not.  That is `Written`.
The second takes a meaning from it: a `Json` value here, a record in
`Json.Record`.

The parts are separate because a reader that skips a member looks at its shape
only: a numeral out of range or half of a surrogate pair is then no fault.
-/

namespace AnalysisRunner

/-- A numeral as written. -/
structure Numeral where
  negative : Bool
  whole : List Char
  fraction : List Char
  /-- Sign and digits of the exponent, if there is one. -/
  exponent : Option (Bool × List Char)
  deriving DecidableEq, Repr

/-- What a string is written with: characters, and code units that are no
character on their own. -/
inductive Glyph where
  | char (c : Char)
  /-- A leading or trailing surrogate, written as an escape. -/
  | surrogate (unit : Nat)
  deriving DecidableEq, Repr

/-- A value as written. -/
inductive Written where
  | null
  | bool (b : Bool)
  | numeral (n : Numeral)
  | string (glyphs : List Glyph)
  | array (items : List Written)
  | object (members : List (List Glyph × Written))
  deriving Repr

namespace Written

/-! ## 1. Strings -/

/-- The value of a hexadecimal digit. -/
def hexValue? (c : Char) : Option Nat :=
  if '0' ≤ c ∧ c ≤ '9' then some (c.toNat - 48)
  else if 'a' ≤ c ∧ c ≤ 'f' then some (c.toNat - 87)
  else if 'A' ≤ c ∧ c ≤ 'F' then some (c.toNat - 55)
  else none

/-- The code unit of four hexadecimal digits. -/
def hexUnit? (a b c d : Char) : Option Nat := do
  let a ← hexValue? a
  let b ← hexValue? b
  let c ← hexValue? c
  let d ← hexValue? d
  pure (((a * 16 + b) * 16 + c) * 16 + d)

/-- The glyph of a code unit. -/
def unitGlyph (n : Nat) : Glyph :=
  if 0xD800 ≤ n ∧ n ≤ 0xDFFF then .surrogate n else .char (Char.ofNat n)

/-- The character that a one-letter escape stands for. -/
def letterEscape? (c : Char) : Option Char :=
  match c with
  | '"' => some '"'
  | '\\' => some '\\'
  | '/' => some '/'
  | 'b' => some (Char.ofNat 8)
  | 'f' => some (Char.ofNat 12)
  | 'n' => some '\n'
  | 'r' => some '\r'
  | 't' => some '\t'
  | _ => none

/-- The rest of a string after its opening quote: its glyphs, and what follows the
closing quote. -/
def readString : List Char → Option (List Glyph × List Char)
  | [] => none
  | '"' :: rest => some ([], rest)
  | '\\' :: 'u' :: a :: b :: c :: d :: rest =>
    match hexUnit? a b c d, readString rest with
    | some n, some (gs, r) => some (unitGlyph n :: gs, r)
    | _, _ => none
  | '\\' :: e :: rest =>
    match letterEscape? e, readString rest with
    | some c, some (gs, r) => some (.char c :: gs, r)
    | _, _ => none
  | '\\' :: [] => none
  | c :: rest =>
    if c.toNat < 0x20 then none
    else (readString rest).map fun (gs, r) => (.char c :: gs, r)

/-- The text of glyphs: a leading and a trailing surrogate make one character, and
a surrogate alone makes none. -/
def glyphChars? : List Glyph → Option (List Char)
  | [] => some []
  | .char c :: rest => (glyphChars? rest).map (c :: ·)
  | .surrogate a :: .surrogate b :: rest =>
    if a < 0xDC00 ∧ 0xDC00 ≤ b then
      (glyphChars? rest).map (Char.ofNat ((a - 0xD800) * 1024 + (b - 0xDC00) + 0x10000) :: ·)
    else none
  | .surrogate _ :: _ => none

/-- The text of glyphs. -/
def glyphText? (glyphs : List Glyph) : Option String :=
  (glyphChars? glyphs).map String.ofList

/-! ## 2. Numerals -/

/-- Whether a character is a decimal digit. -/
def isDigit (c : Char) : Bool :=
  '0' ≤ c && c ≤ '9'

/-- The digits in front, and what follows. -/
def readDigits (cs : List Char) : List Char × List Char :=
  (cs.takeWhile isDigit, cs.dropWhile isDigit)

/-- The digits of a whole part: a zero, or digits that do not begin with one. -/
def readWhole : List Char → Option (List Char × List Char)
  | '0' :: rest => some (['0'], rest)
  | c :: rest => if isDigit c then some (readDigits (c :: rest)) else none
  | [] => none

/-- A fraction, if a point follows. -/
def readFraction : List Char → Option (List Char × List Char)
  | '.' :: rest =>
    match readDigits rest with
    | ([], _) => none
    | digits => some digits
  | cs => some ([], cs)

/-- An exponent after its letter: a sign and digits. -/
def readExponentDigits (negative : Bool) (cs : List Char) :
    Option (Option (Bool × List Char) × List Char) :=
  match readDigits cs with
  | ([], _) => none
  | (digits, rest) => some (some (negative, digits), rest)

/-- An exponent, if its letter follows. -/
def readExponent : List Char → Option (Option (Bool × List Char) × List Char)
  | c :: rest =>
    if c = 'e' ∨ c = 'E' then
      match rest with
      | '+' :: rest => readExponentDigits false rest
      | '-' :: rest => readExponentDigits true rest
      | rest => readExponentDigits false rest
    else some (none, c :: rest)
  | [] => some (none, [])

/-- The rest of a numeral after its sign. -/
def readMagnitude (negative : Bool) (cs : List Char) : Option (Numeral × List Char) := do
  let (whole, cs) ← readWhole cs
  let (fraction, cs) ← readFraction cs
  let (exponent, cs) ← readExponent cs
  pure (⟨negative, whole, fraction, exponent⟩, cs)

/-- A numeral. -/
def readNumeral : List Char → Option (Numeral × List Char)
  | '-' :: rest => readMagnitude true rest
  | cs => readMagnitude false cs

/-! ## 3. Values -/

/-- Whether a character may stand between the parts of a text. -/
def isBlank (c : Char) : Bool :=
  c == ' ' || c == '\n' || c == '\t' || c == '\r'

/-- What follows the blanks. -/
def skipBlanks (cs : List Char) : List Char :=
  cs.dropWhile isBlank

/-- A value that is neither a string, an array nor an object. -/
def readPlain : List Char → Option (Written × List Char)
  | 'n' :: 'u' :: 'l' :: 'l' :: rest => some (.null, rest)
  | 't' :: 'r' :: 'u' :: 'e' :: rest => some (.bool true, rest)
  | 'f' :: 'a' :: 'l' :: 's' :: 'e' :: rest => some (.bool false, rest)
  | cs => (readNumeral cs).map fun (n, rest) => (.numeral n, rest)

mutual

/-- A value, and what follows it.  The first argument bounds the depth of the
search; twice the length of the text is always enough. -/
def readValue : Nat → List Char → Option (Written × List Char)
  | 0, _ => none
  | fuel + 1, cs =>
    match skipBlanks cs with
    | '"' :: rest => (readString rest).map fun (gs, r) => (.string gs, r)
    | '[' :: rest =>
      match skipBlanks rest with
      | ']' :: r => some (.array [], r)
      | r => (readItems fuel r).map fun (items, r) => (.array items, r)
    | '{' :: rest =>
      match skipBlanks rest with
      | '}' :: r => some (.object [], r)
      | r => (readMembers fuel r).map fun (members, r) => (.object members, r)
    | rest => readPlain rest

/-- Items up to the closing bracket. -/
def readItems : Nat → List Char → Option (List Written × List Char)
  | 0, _ => none
  | fuel + 1, cs =>
    match readValue fuel cs with
    | none => none
    | some (v, rest) =>
      match skipBlanks rest with
      | ']' :: r => some ([v], r)
      | ',' :: r => (readItems fuel r).map fun (items, r) => (v :: items, r)
      | _ => none

/-- Members up to the closing brace. -/
def readMembers : Nat → List Char → Option (List (List Glyph × Written) × List Char)
  | 0, _ => none
  | fuel + 1, cs =>
    match skipBlanks cs with
    | '"' :: rest =>
      match readString rest with
      | none => none
      | some (key, rest) =>
        match skipBlanks rest with
        | ':' :: rest =>
          match readValue fuel rest with
          | none => none
          | some (v, rest) =>
            match skipBlanks rest with
            | '}' :: r => some ([(key, v)], r)
            | ',' :: r => (readMembers fuel r).map fun (members, r) => ((key, v) :: members, r)
            | _ => none
        | _ => none
    | _ => none

end

/-- A whole text: one value, with nothing but blanks around it. -/
def ofChars? (cs : List Char) : Option Written :=
  match readValue (2 * cs.length + 2) cs with
  | some (v, rest) => if (skipBlanks rest).isEmpty then some v else none
  | none => none

/-- A text as written. -/
def ofText? (text : String) : Option Written :=
  ofChars? text.toList

end Written

/-! ## 4. The value of a numeral -/

namespace Numeral

/-- The value of a digit. -/
def digitValue (c : Char) : Nat :=
  c.toNat - 48

/-- Takes digits into a significand as long as it stays below `2 ^ 64`; the digits
that are left. -/
def takeDigits : Nat → List Char → Nat × List Char
  | significand, [] => (significand, [])
  | significand, c :: rest =>
    let next := significand * 10 + digitValue c
    if next < Nat.pow 2 64 then takeDigits next rest else (significand, c :: rest)

/-- The value of a list of digits. -/
def digitsValue (digits : List Char) : Nat :=
  digits.foldl (fun n c => n * 10 + digitValue c) 0

/-- A significand scaled by a power of ten, in steps of at most `10 ^ 308`, each
step rounded.  Out of range is no number, except that zero stays zero. -/
def scale : Nat → Binary64 → Int → Option Binary64
  | 0, x, _ => some (.zero x.negative)
  | fuel + 1, x, e =>
    if x.isZero then some x
    else if 308 < e then none
    else if 0 ≤ e then do x.mul (← Binary64.ofNat (Nat.pow 10 e.toNat))
    else if -308 ≤ e then do x.div (← Binary64.ofNat (Nat.pow 10 (-e).toNat))
    else
      match (do x.div (← Binary64.ofNat (Nat.pow 10 308)) : Option Binary64) with
      | some y => scale fuel y (e + 308)
      | none => none

/-- The binary fraction of a numeral.  The significand keeps the leading digits
that fit sixty-four bits: further whole digits count into the exponent, and
further fraction digits are dropped. -/
def real? (n : Numeral) : Option Binary64 := do
  let (significand, left) := takeDigits 0 n.whole
  let (significand, unread) := takeDigits significand n.fraction
  let point : Int := (left.length : Int) - ((n.fraction.length - unread.length : Nat) : Int)
  let shift : Int := match n.exponent with
    | none => 0
    | some (true, digits) => -(digitsValue digits : Int)
    | some (false, digits) => (digitsValue digits : Int)
  let x ← scale 4 (← Binary64.ofNat significand) (point + shift)
  pure (if n.negative then x.neg else x)

/-- The number of a numeral: an integer if it is written as one and fits
sixty-four bits, otherwise a binary fraction; `-0` is the fraction. -/
def number? (n : Numeral) : Option Number :=
  let value := digitsValue n.whole
  if n.fraction.isEmpty ∧ n.exponent.isNone then
    if n.negative then
      if h : value - 1 < Nat.pow 2 63 then
        if value = 0 then n.real?.map .real else some (.negSucc ⟨value - 1, h⟩)
      else n.real?.map .real
    else if value < Nat.pow 2 64 then some (.nat value.toUInt64)
    else n.real?.map .real
  else n.real?.map .real

end Numeral

/-! ## 5. The value of a text -/

namespace Json

mutual

/-- The value of what is written, if its arrays and objects are nested no deeper
than `depth`. -/
def ofWritten? (depth : Nat) : Written → Option Json
  | .null => some .null
  | .bool b => some (.bool b)
  | .numeral n => n.number?.map .number
  | .string gs => (Written.glyphText? gs).map .string
  | .array items =>
    if depth = 0 then none else (itemsOfWritten? (depth - 1) items).map .array
  | .object members =>
    if depth = 0 then none
    else (membersOfWritten? (depth - 1) members).map fun ms => .object (sortMembers ms)

/-- The values of items. -/
def itemsOfWritten? (depth : Nat) : List Written → Option (List Json)
  | [] => some []
  | w :: rest =>
    match ofWritten? depth w, itemsOfWritten? depth rest with
    | some v, some vs => some (v :: vs)
    | _, _ => none

/-- The members, in the order written. -/
def membersOfWritten? (depth : Nat) : List (List Glyph × Written) → Option (List (String × Json))
  | [] => some []
  | (k, w) :: rest =>
    match Written.glyphText? k, ofWritten? depth w, membersOfWritten? depth rest with
    | some key, some v, some vs => some ((key, v) :: vs)
    | _, _, _ => none

end

/-- Values may be nested this deep. -/
def maxDepth : Nat := 127

/-- The value of a text. -/
def ofText? (text : String) : Option Json :=
  (Written.ofText? text).bind (ofWritten? maxDepth)

end Json
end AnalysisRunner
