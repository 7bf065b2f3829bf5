import AnalysisRunner.Text.Utf8
import AnalysisRunner.Number.Shortest

/-!
# JSON values and their text

A value's members are kept in the order in which they are to be written, so one
type serves both for records, whose fields have a fixed order, and for values in
canonical form, whose members are sorted by key at every level.

Numbers are of three kinds that are written differently and never mixed: the
naturals of sixty-four bits, the negative integers of sixty-four bits, and binary
fractions.

Texts are lists of characters while they are being built; `compact` and `pretty`
close them.
-/

namespace AnalysisRunner

/-- A JSON number. -/
inductive Number where
  /-- A natural number. -/
  | nat (n : UInt64)
  /-- The negative integer `-(n + 1)`. -/
  | negSucc (n : Fin (Nat.pow 2 63))
  /-- A binary fraction. -/
  | real (x : Binary64)
  deriving DecidableEq, Repr

/-- A JSON value. -/
inductive Json where
  | null
  | bool (b : Bool)
  | number (n : Number)
  | string (s : String)
  | array (items : List Json)
  | object (members : List (String × Json))
  deriving Repr

namespace Json

/-- A natural number; it is cut to sixty-four bits. -/
def ofNat (n : Nat) : Json :=
  .number (.nat n.toUInt64)

/-- An optional value, `null` when there is none. -/
def ofOption (f : α → Json) : Option α → Json
  | none => .null
  | some a => f a

/-- The member of an object with a given key. -/
def member? (key : String) : Json → Option Json
  | .object members => members.lookup key
  | _ => none

/-! ## 1. Canonical form -/

/-- Puts a member into a list sorted by key; an older value of the same key
gives way. -/
def insertMember (key : String) (value : α) : List (String × α) → List (String × α)
  | [] => [(key, value)]
  | (k, v) :: rest =>
    if key < k then (key, value) :: (k, v) :: rest
    else if key = k then (key, value) :: rest
    else (k, v) :: insertMember key value rest

/-- The members sorted by key, the last value of a repeated key winning. -/
def sortMembers (members : List (String × α)) : List (String × α) :=
  members.foldl (fun sorted m => insertMember m.1 m.2 sorted) []

mutual

/-- The value with the members of every object sorted by key. -/
def canonical : Json → Json
  | .array items => .array (canonicalItems items)
  | .object members => .object (sortMembers (canonicalMembers members))
  | v => v

/-- The canonical forms of the items of an array. -/
def canonicalItems : List Json → List Json
  | [] => []
  | v :: rest => canonical v :: canonicalItems rest

/-- The canonical forms of the values of members. -/
def canonicalMembers : List (String × Json) → List (String × Json)
  | [] => []
  | (k, v) :: rest => (k, canonical v) :: canonicalMembers rest

end

/-! ## 2. Text of strings and numbers -/

/-- The characters that stand for a character inside a quoted string: only the
quote, the backslash and control characters are escaped. -/
def escaped (c : Char) : List Char :=
  if c = '"' then ['\\', '"']
  else if c = '\\' then ['\\', '\\']
  else if 0x20 ≤ c.toNat then [c]
  else if c = '\n' then ['\\', 'n']
  else if c = '\r' then ['\\', 'r']
  else if c = '\t' then ['\\', 't']
  else if c.toNat = 8 then ['\\', 'b']
  else if c.toNat = 12 then ['\\', 'f']
  else ['\\', 'u', '0', '0', hexDigit (c.toNat / 16), hexDigit (c.toNat % 16)]

/-- A quoted string. -/
def quoted (s : String) : List Char :=
  '"' :: (s.toList.flatMap escaped ++ ['"'])

/-- The decimal digits of a natural. -/
def natChars (n : Nat) : List Char :=
  Nat.toDigits 10 n

/-- A fraction in decimal: positional from `0.00001` up to `10 ^ 16`, otherwise
with a signed exponent; positional text always shows a point. -/
def decimalChars (d : Decimal) : List Char :=
  let digits := natChars d.digits
  let lead : Int := (digits.length : Int) + d.exponent - 1
  if d.digits = 0 then ['0', '.', '0']
  else if lead < -5 ∨ 15 < lead then
    let mantissa := match digits with
      | [] => []
      | [c] => [c]
      | c :: rest => c :: '.' :: rest
    let sign := if lead < 0 then '-' else '+'
    mantissa ++ 'e' :: sign :: natChars lead.natAbs
  else if lead < 0 then
    '0' :: '.' :: (List.replicate (-lead - 1).toNat '0' ++ digits)
  else
    let whole := lead.toNat + 1
    if digits.length ≤ whole then
      digits ++ List.replicate (whole - digits.length) '0' ++ ['.', '0']
    else digits.take whole ++ '.' :: digits.drop whole

/-- The text of a number. -/
def numberChars : Number → List Char
  | .nat n => natChars n.toNat
  | .negSucc n => '-' :: natChars (n.val + 1)
  | .real x =>
    let text := decimalChars (Decimal.shortest x)
    if x.negative then '-' :: text else text

/-! ## 3. Text of values -/

mutual

/-- The text of a value without any blanks. -/
def chars : Json → List Char
  | .null => "null".toList
  | .bool true => "true".toList
  | .bool false => "false".toList
  | .number n => numberChars n
  | .string s => quoted s
  | .array [] => ['[', ']']
  | .array (v :: rest) => '[' :: (chars v ++ itemsChars rest)
  | .object [] => ['{', '}']
  | .object ((k, v) :: rest) => '{' :: (quoted k ++ ':' :: (chars v ++ membersChars rest))

/-- The items after the first, and the closing bracket. -/
def itemsChars : List Json → List Char
  | [] => [']']
  | v :: rest => ',' :: (chars v ++ itemsChars rest)

/-- The members after the first, and the closing brace. -/
def membersChars : List (String × Json) → List Char
  | [] => ['}']
  | (k, v) :: rest => ',' :: (quoted k ++ ':' :: (chars v ++ membersChars rest))

end

/-- A new line, indented by two blanks for each level. -/
def newLine (depth : Nat) : List Char :=
  '\n' :: List.replicate (2 * depth) ' '

mutual

/-- The text of a value, one item or member a line. -/
def prettyChars (depth : Nat) : Json → List Char
  | .array (v :: rest) =>
    '[' :: (newLine (depth + 1) ++ prettyChars (depth + 1) v ++ prettyItems depth rest)
  | .object ((k, v) :: rest) =>
    '{' :: (newLine (depth + 1) ++ quoted k ++ ':' :: ' ' :: (prettyChars (depth + 1) v ++
      prettyMembers depth rest))
  | .null => "null".toList
  | .bool true => "true".toList
  | .bool false => "false".toList
  | .number n => numberChars n
  | .string s => quoted s
  | .array [] => ['[', ']']
  | .object [] => ['{', '}']

/-- The items after the first, each on its line, and the closing bracket. -/
def prettyItems (depth : Nat) : List Json → List Char
  | [] => newLine depth ++ [']']
  | v :: rest => ',' :: (newLine (depth + 1) ++ prettyChars (depth + 1) v ++ prettyItems depth rest)

/-- The members after the first, each on its line, and the closing brace. -/
def prettyMembers (depth : Nat) : List (String × Json) → List Char
  | [] => newLine depth ++ ['}']
  | (k, v) :: rest =>
    ',' :: (newLine (depth + 1) ++ quoted k ++ ':' :: ' ' :: (prettyChars (depth + 1) v ++
      prettyMembers depth rest))

end

/-- The text of a value in one line. -/
def compact (v : Json) : String :=
  String.ofList v.chars

/-- The text of a value over several lines. -/
def pretty (v : Json) : String :=
  String.ofList (v.prettyChars 0)

end Json
end AnalysisRunner
