import AnalysisRunner.Toml.Scalar

/-!
# TOML strings

The four forms of quoted text: basic and literal, on one line or over several.
Each reader starts after the opening quotes and answers with the characters of the
string and with what follows the closing quotes.

In the forms over several lines, up to two quotes may stand in front of the closing
three, and a line feed right after the opening quotes is not part of the text.  In
the basic form a backslash at the end of a line takes away the line end and all
blanks and line ends after it; `trimming` is set while that lasts.
-/

namespace AnalysisRunner
namespace Toml

/-- Whether a character may stand in a quoted text as it is. -/
def isTextChar (c : Char) : Bool :=
  c == '\t' || (0x20 ≤ c.toNat && c.toNat != 0x7F)

/-- Whether a character is a blank. -/
def isBlank (c : Char) : Bool :=
  c == ' ' || c == '\t'

/-- The character that a one-letter escape stands for. -/
def letterEscape? (c : Char) : Option Char :=
  match c with
  | 'b' => some (Char.ofNat 8)
  | 't' => some '\t'
  | 'n' => some '\n'
  | 'f' => some (Char.ofNat 12)
  | 'r' => some '\r'
  | 'e' => some (Char.ofNat 27)
  | '"' => some '"'
  | '\\' => some '\\'
  | _ => none

/-- The character that hexadecimal digits stand for. -/
def codeEscape? (digits : List Char) : Option Char :=
  let n := digitsValue 16 digits
  if digits.all isHexDigit && (n < 0xD800 || (0xE000 ≤ n && n ≤ 0x10FFFF)) then some (Char.ofNat n)
  else none

/-- Adds a character, if there is one, in front of a text that was read. -/
def consChar (c : Option Char) (read : Option (List Char × List Char)) :
    Option (List Char × List Char) :=
  match c, read with
  | some c, some (cs, rest) => some (c :: cs, rest)
  | _, _ => none

/-- A basic string on one line. -/
def readBasic : List Char → Option (List Char × List Char)
  | [] => none
  | '"' :: rest => some ([], rest)
  | '\\' :: 'x' :: a :: b :: rest => consChar (codeEscape? [a, b]) (readBasic rest)
  | '\\' :: 'u' :: a :: b :: c :: d :: rest =>
    consChar (codeEscape? [a, b, c, d]) (readBasic rest)
  | '\\' :: 'U' :: a :: b :: c :: d :: e :: f :: g :: h :: rest =>
    consChar (codeEscape? [a, b, c, d, e, f, g, h]) (readBasic rest)
  | '\\' :: c :: rest => consChar (letterEscape? c) (readBasic rest)
  | c :: rest => if isTextChar c then consChar (some c) (readBasic rest) else none

/-- A literal string on one line. -/
def readLiteral : List Char → Option (List Char × List Char)
  | [] => none
  | '\'' :: rest => some ([], rest)
  | c :: rest => if isTextChar c then consChar (some c) (readLiteral rest) else none

/-- Whether only blanks stand before the end of the line. -/
def endsLine (cs : List Char) : Bool :=
  match cs.dropWhile isBlank with
  | '\n' :: _ => true
  | '\r' :: '\n' :: _ => true
  | _ => false

/-- Quotes after three that close belong to the text, up to two of them. -/
def closing (quote : Char) : List Char → List Char × List Char
  | a :: b :: rest =>
    if a = quote ∧ b = quote then ([quote, quote], rest)
    else if a = quote then ([quote], b :: rest)
    else ([], a :: b :: rest)
  | [a] => if a = quote then ([quote], []) else ([], [a])
  | [] => ([], [])

/-- A basic string over several lines. -/
def readLongBasic (trimming : Bool) : List Char → Option (List Char × List Char)
  | [] => none
  | '"' :: '"' :: '"' :: rest => some (closing '"' rest)
  | '\\' :: 'x' :: a :: b :: rest => consChar (codeEscape? [a, b]) (readLongBasic false rest)
  | '\\' :: 'u' :: a :: b :: c :: d :: rest =>
    consChar (codeEscape? [a, b, c, d]) (readLongBasic false rest)
  | '\\' :: 'U' :: a :: b :: c :: d :: e :: f :: g :: h :: rest =>
    consChar (codeEscape? [a, b, c, d, e, f, g, h]) (readLongBasic false rest)
  | '\\' :: c :: rest =>
    if endsLine (c :: rest) then readLongBasic true (c :: rest)
    else consChar (letterEscape? c) (readLongBasic false rest)
  | '\r' :: '\n' :: rest =>
    if trimming then readLongBasic true rest
    else consChar (some '\r') (consChar (some '\n') (readLongBasic false rest))
  | c :: rest =>
    if trimming && (isBlank c || c == '\n') then readLongBasic true rest
    else if c = '\n' ∨ isTextChar c then consChar (some c) (readLongBasic false rest)
    else none

/-- A literal string over several lines. -/
def readLongLiteral : List Char → Option (List Char × List Char)
  | [] => none
  | '\'' :: '\'' :: '\'' :: rest => some (closing '\'' rest)
  | '\r' :: '\n' :: rest => consChar (some '\r') (consChar (some '\n') (readLongLiteral rest))
  | c :: rest =>
    if c = '\n' ∨ isTextChar c then consChar (some c) (readLongLiteral rest) else none

/-- What follows a line end right after opening quotes. -/
def afterLineEnd : List Char → List Char
  | '\n' :: rest => rest
  | '\r' :: '\n' :: rest => rest
  | cs => cs

/-- A quoted text in any form; `none` also if there is none here. -/
def readQuoted? : List Char → Option (List Char × List Char)
  | '"' :: '"' :: '"' :: rest => readLongBasic false (afterLineEnd rest)
  | '\'' :: '\'' :: '\'' :: rest => readLongLiteral (afterLineEnd rest)
  | '"' :: rest => readBasic rest
  | '\'' :: rest => readLiteral rest
  | _ => none

end Toml
end AnalysisRunner
