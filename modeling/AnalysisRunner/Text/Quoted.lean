import AnalysisRunner.Text.Numbered
import AnalysisRunner.Text.Utf8

/-!
# Quoted texts

A text in quotes, for messages that name something: quotes and backslashes are
escaped, and a character that would not be seen is written by its number in
braces.  A path is quoted piece by piece, since it may hold bytes that are no
text: those are written in hexadecimal, and apostrophes are escaped too.
-/

namespace AnalysisRunner
namespace Quoted

/-- The hexadecimal digits of a natural, in lower case. -/
def hexChars (n : Nat) : List Char :=
  Nat.toDigits 16 n

/-- The characters that stand for a character of a quoted text. -/
def charText (c : Char) : List Char :=
  if c = '"' then ['\\', '"']
  else if c = '\\' then ['\\', '\\']
  else if c = '\n' then ['\\', 'n']
  else if c = '\r' then ['\\', 'r']
  else if c = '\t' then ['\\', 't']
  else if c.toNat = 0 then ['\\', '0']
  else if isNumbered c then '\\' :: 'u' :: '{' :: (hexChars c.toNat ++ ['}'])
  else [c]

/-- A text in quotes. -/
def text (s : String) : String :=
  String.ofList ('"' :: (s.toList.flatMap charText ++ ['"']))

/-- A byte in hexadecimal, in upper case. -/
def byteText (b : UInt8) : List Char :=
  '\\' :: 'x' :: (hexByte b).map Char.toUpper

/-- The characters that stand for a piece of a byte string. -/
def pieceText : Piece → List Char
  | .char c => if c = '\'' then ['\\', '\''] else charText c
  | .broken bytes => bytes.flatMap byteText

/-- A byte string in quotes. -/
def bytes (b : Bytes) : String :=
  String.ofList ('"' :: (b.pieces.flatMap pieceText ++ ['"']))

/-- A list of byte strings in quotes, in brackets. -/
def list (bs : List Bytes) : String :=
  "[" ++ String.intercalate ", " (bs.map bytes) ++ "]"

end Quoted
end AnalysisRunner
