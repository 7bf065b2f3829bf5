import AnalysisRunner.Glob.Basic
import AnalysisRunner.Text.Utf8

/-!
# Matching patterns

A pattern is matched against bytes.  What a part can take off the front of a byte
string is a set of remainders; a list of parts composes those sets, and the whole
pattern matches when the empty remainder is among them.  Remainders of one string
are told apart by their length, so a set never grows beyond the length of the
string.

One rule is about names.  A pattern that is decided by the last component alone, or
by its ending after the last dot, does not match a path that ends in two dots for the
directory above: such a path has no file name.
-/

namespace AnalysisRunner
namespace Glob

/-! ## 1. Classes -/

/-- The byte ranges of a range of characters.  The bytes of the two ends are set
side by side, and the range runs from the last byte of the low end to the first of
the high end. -/
def byteRanges (r : Char × Char) : List (UInt8 × UInt8) :=
  let low := String.utf8EncodeChar r.1
  let high := String.utf8EncodeChar r.2
  if r.1 = r.2 then low.map fun b => (b, b)
  else
    low.dropLast.map (fun b => (b, b)) ++ [(low.getLastD 0, high.headD 0)] ++
      high.tail.map fun b => (b, b)

/-- Whether a class has a byte as a member. -/
def classHas (ranges : List (Char × Char)) (b : UInt8) : Bool :=
  (ranges.flatMap byteRanges).any fun r => r.1 ≤ b && b ≤ r.2

/-! ## 2. Remainders -/

/-- A set of remainders of one string: each length once. -/
def distinct (rests : List Bytes) : List Bytes :=
  rests.foldl (fun seen r => if seen.any fun s => s.length = r.length then seen else seen ++ [r]) []

/-- All remainders of a string. -/
def suffixes : Bytes → List Bytes
  | [] => [[]]
  | b :: rest => (b :: rest) :: suffixes rest

/-- The remainders after a separator. -/
def afterSlashes : Bytes → List Bytes
  | [] => []
  | b :: rest => if b = 47 then rest :: afterSlashes rest else afterSlashes rest

/-- What is left after given bytes. -/
def stripBytes? : Bytes → Bytes → Option Bytes
  | [], s => some s
  | _ :: _, [] => none
  | a :: as, b :: bs => if a = b then stripBytes? as bs else none

mutual

/-- Whether a pattern takes nothing because it has no part but empty groups. -/
def isVoid : List Part → Bool
  | [] => true
  | .choice branches :: rest => allVoid branches && isVoid rest
  | _ :: _ => false

/-- Whether all branches are void. -/
def allVoid : List (List Part) → Bool
  | [] => true
  | branch :: rest => isVoid branch && allVoid rest

end

mutual

/-- The remainders after a part. -/
def partRests : Part → Bytes → List Bytes
  | .literal c, s => (stripBytes? (String.utf8EncodeChar c) s).toList
  | .any, s => match s with
    | [] => []
    | _ :: rest => [rest]
  | .star, s => suffixes s
  | .anyDepth, s => s :: afterSlashes s
  | .inside, s => match s with
    | 47 :: rest => suffixes rest
    | _ => []
  | .between, s => match s with
    | 47 :: rest => rest :: afterSlashes rest
    | _ => []
  | .oneOf negated ranges, s => match s with
    | b :: rest => if classHas ranges b != negated then [rest] else []
    | [] => []
  | .choice branches, s => if allVoid branches then [s] else distinct (branchRests branches s)

/-- The remainders after the branches of a group; a branch that is void does not
count. -/
def branchRests : List (List Part) → Bytes → List Bytes
  | [], _ => []
  | branch :: rest, s =>
    (if isVoid branch then [] else partsRests branch [s]) ++ branchRests rest s

/-- The remainders after a list of parts, from a set of remainders. -/
def partsRests : List Part → List Bytes → List Bytes
  | [], rests => rests
  | part :: parts, rests => partsRests parts (distinct (rests.flatMap (partRests part)))

end

/-! ## 3. Patterns that are decided by the file name -/

/-- Whether a part is a character. -/
def isLiteral : Part → Bool
  | .literal _ => true
  | _ => false

/-- Whether a part is a character that is in no extension and no name. -/
def isMark (marks : List Char) : Part → Bool
  | .literal c => marks.contains c
  | _ => false

/-- A name at any depth. -/
def isBaseName : List Part → Bool
  | .anyDepth :: name =>
    !name.isEmpty && name.all fun p => isLiteral p && !isMark ['/'] p
  | _ => false

/-- Anything with a given extension. -/
def isExtension : List Part → Bool
  | .anyDepth :: .star :: .literal '.' :: ext =>
    ext.all fun p => isLiteral p && !isMark ['.', '/'] p
  | .star :: .literal '.' :: ext => ext.all fun p => isLiteral p && !isMark ['.', '/'] p
  | _ => false

/-- Anything with a given ending. -/
def isSuffix : List Part → Bool
  | .anyDepth :: .star :: rest => !rest.isEmpty && rest.all isLiteral
  | .anyDepth :: rest => !rest.isEmpty && rest.all isLiteral
  | .star :: rest => !rest.isEmpty && rest.all isLiteral
  | _ => false

/-- Something that ends in a dot and characters other than separators. -/
def endsInExtension (parts : List Part) : Bool :=
  let tail := parts.reverse.dropWhile fun p => isLiteral p && !isMark ['.', '/'] p
  match tail with
  | p :: _ => isMark ['.'] p
  | [] => false

/-- Whether a pattern looks at the file name only. -/
def isByName (parts : List Part) : Bool :=
  isBaseName parts ||
    (!parts.all isLiteral &&
      (isExtension parts || (!isSuffix parts && endsInExtension parts)))

/-- Whether the last component of a path is the directory above. -/
def endsAbove (s : Bytes) : Bool :=
  (s.reverse.takeWhile (· ≠ 47)) = [46, 46]

/-- Whether a pattern matches a byte string. -/
def isMatch (g : Glob) (s : Bytes) : Bool :=
  match g.parts with
  | [.anyDepth] => true
  | parts =>
    if isByName parts && endsAbove s then false
    else (partsRests parts [s]).any List.isEmpty

end Glob
end AnalysisRunner
