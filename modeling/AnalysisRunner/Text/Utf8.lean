/-!
# Byte strings and the text they hold

A file, a path and the value of an environment variable are strings of bytes.
They are shown as text, and most of them are text, but nothing promises it.
This module reads a byte string as a sequence of *pieces*: a piece is a
character, or a stretch of bytes that begins a character and does not finish it.

`Bytes.pieces` is a machine with one state per byte, so it is total by recursion
on the bytes, and it cuts at the first byte that rules a character out.  Strict
reading (`Bytes.text?`) asks that no piece be broken; lenient reading
(`Bytes.shown`) puts one replacement character for each broken piece.
-/

namespace AnalysisRunner

/-- A string of bytes. -/
abbrev Bytes := List UInt8

/-- The bytes of a text, in UTF-8. -/
def Bytes.ofText (text : String) : Bytes :=
  text.toList.flatMap String.utf8EncodeChar

/-- What a byte string falls into when it is read as text. -/
inductive Piece where
  /-- A whole character. -/
  | char (c : Char)
  /-- Bytes that begin a character without finishing it, or begin none. -/
  | broken (bytes : Bytes)
  deriving DecidableEq, Repr

/-- A character left open: the bytes read, their value so far, how many
are still owed, and the bounds on the next one. -/
structure OpenChar where
  seen : Bytes
  value : Nat
  owed : Nat
  low : UInt8
  high : UInt8
  deriving DecidableEq, Repr

/-- What the first byte of a character leads to: a whole character, a character
left open, or a byte that begins none. -/
def OpenChar.start (b : UInt8) : Piece ⊕ OpenChar :=
  if b < 0x80 then .inl (.char (Char.ofNat b.toNat))
  else if 0xC2 ≤ b ∧ b ≤ 0xDF then .inr ⟨[b], b.toNat - 0xC0, 1, 0x80, 0xBF⟩
  else if b = 0xE0 then .inr ⟨[b], 0, 2, 0xA0, 0xBF⟩
  else if b = 0xED then .inr ⟨[b], 0xD, 2, 0x80, 0x9F⟩
  else if 0xE1 ≤ b ∧ b ≤ 0xEF then .inr ⟨[b], b.toNat - 0xE0, 2, 0x80, 0xBF⟩
  else if b = 0xF0 then .inr ⟨[b], 0, 3, 0x90, 0xBF⟩
  else if b = 0xF4 then .inr ⟨[b], 4, 3, 0x80, 0x8F⟩
  else if 0xF1 ≤ b ∧ b ≤ 0xF3 then .inr ⟨[b], b.toNat - 0xF0, 3, 0x80, 0xBF⟩
  else .inl (.broken [b])

/-- A character left open takes one more byte, if the byte is within its
bounds. -/
def OpenChar.extend? (p : OpenChar) (b : UInt8) : Option (Piece ⊕ OpenChar) :=
  if p.low ≤ b ∧ b ≤ p.high then
    let value := p.value * 64 + (b.toNat - 0x80)
    if p.owed ≤ 1 then some (.inl (.char (Char.ofNat value)))
    else some (.inr ⟨p.seen ++ [b], value, p.owed - 1, 0x80, 0xBF⟩)
  else none

/-- The pieces of a byte string, read from a given state. -/
def Bytes.piecesFrom : Option OpenChar → Bytes → List Piece
  | none, [] => []
  | some p, [] => [.broken p.seen]
  | none, b :: rest =>
    match OpenChar.start b with
    | .inl piece => piece :: piecesFrom none rest
    | .inr p => piecesFrom (some p) rest
  | some p, b :: rest =>
    match p.extend? b with
    | some (.inl piece) => piece :: piecesFrom none rest
    | some (.inr q) => piecesFrom (some q) rest
    | none =>
      match OpenChar.start b with
      | .inl piece => .broken p.seen :: piece :: piecesFrom none rest
      | .inr q => .broken p.seen :: piecesFrom (some q) rest

/-- The pieces of a byte string. -/
def Bytes.pieces (bytes : Bytes) : List Piece :=
  Bytes.piecesFrom none bytes

/-- The character of an unbroken piece. -/
def Piece.char? : Piece → Option Char
  | .char c => some c
  | .broken _ => none

/-- The text that a byte string holds, if all of it is text. -/
def Bytes.text? (bytes : Bytes) : Option String :=
  (bytes.pieces.mapM Piece.char?).map String.ofList

/-- The text that is shown for a byte string: U+FFFD stands for each broken
piece. -/
def Bytes.shown (bytes : Bytes) : String :=
  String.ofList (bytes.pieces.map fun piece => piece.char?.getD '�')

/-- The digit of a hexadecimal numeral, in lower case. -/
def hexDigit (n : Nat) : Char :=
  if n < 10 then Char.ofNat (48 + n) else Char.ofNat (87 + n)

/-- A byte as two hexadecimal digits. -/
def hexByte (b : UInt8) : List Char :=
  [hexDigit (b.toNat / 16), hexDigit (b.toNat % 16)]

/-- A byte string as hexadecimal digits, two for each byte. -/
def Bytes.hex (bytes : Bytes) : String :=
  String.ofList (bytes.flatMap hexByte)

/-- Byte strings are ordered byte by byte, and a string comes before its
extensions. -/
def Bytes.compare : Bytes → Bytes → Ordering
  | [], [] => .eq
  | [], _ :: _ => .lt
  | _ :: _, [] => .gt
  | a :: as, b :: bs => if a < b then .lt else if b < a then .gt else compare as bs

end AnalysisRunner
