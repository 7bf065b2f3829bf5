import AnalysisRunner.Toml.Quoted

/-!
# TOML documents

A document is a sequence of lines, each of which names a table or gives a key its
value.  Lines are read one after the other and put into a tree of tables.

The tree remembers how each table came to be, because that decides who may add to
it: a table named in a header is complete but for tables below it, a table that
exists only because a header named something below it can still be named, and a
table made by a dotted key takes more dotted keys and nothing else.
-/

namespace AnalysisRunner
namespace Toml

/-! ## 1. The tree of tables -/

/-- How a table came to be. -/
inductive Origin where
  /-- It was named in a header. -/
  | header
  /-- Something below it was named in a header. -/
  | passage
  /-- A dotted key leads through it. -/
  | dotted
  deriving DecidableEq, Repr

/-- What a key holds while a document is read. -/
inductive Item where
  | value (v : Value)
  | table (origin : Origin) (entries : List (String × Item))
  /-- A list of tables, each from a header of its own. -/
  | tables (elements : List (List (String × Item)))

/-- The entries of a table. -/
abbrev Entries := List (String × Item)

/-- The entries with another item for a key. -/
def Entries.replace (entries : Entries) (key : String) (item : Item) : Entries :=
  entries.map fun e => if e.1 = key then (key, item) else e

/-- Changes the table at the end of a path, making tables on the way.  A list of
tables leads to its last one. -/
def Entries.change (dotted : Bool) (f : Origin → Entries → Option Entries) :
    List String → Origin → Entries → Option Entries
  | [], origin, entries => f origin entries
  | key :: path, _, entries =>
    match entries.lookup key with
    | none =>
      let origin := if dotted then Origin.dotted else .passage
      (change dotted f path origin []).map fun sub => entries ++ [(key, .table origin sub)]
    | some (.value _) => none
    | some (.table origin sub) =>
      if dotted ∧ origin = .header then none
      else (change dotted f path origin sub).map fun sub =>
        entries.replace key (.table origin sub)
    | some (.tables elements) =>
      match elements.reverse with
      | [] => none
      | last :: before =>
        (change dotted f path .header last).map fun last =>
          entries.replace key (.tables (last :: before).reverse)

/-- Gives the last key of a dotted key its value, once. -/
def Entries.define (path : List String) (key : String) (v : Value)
    (origin : Origin) (entries : Entries) : Option Entries :=
  change true (fun origin entries =>
    if (origin = .dotted) = (path.isEmpty = true) then none
    else if (entries.lookup key).isSome then none
    else some (entries ++ [(key, .value v)])) path origin entries

/-- Names a table in a header, once. -/
def Entries.name (key : String) (_ : Origin) (entries : Entries) : Option Entries :=
  match entries.lookup key with
  | none => some (entries ++ [(key, .table .header [])])
  | some (.table .passage sub) => some (entries.replace key (.table .header sub))
  | some _ => none

/-- Adds a table to a list of tables. -/
def Entries.append (key : String) (_ : Origin) (entries : Entries) : Option Entries :=
  match entries.lookup key with
  | none => some (entries ++ [(key, .tables [[]])])
  | some (.tables elements) => some (entries.replace key (.tables (elements ++ [[]])))
  | some _ => none

mutual

/-- The value of an item. -/
def Item.toValue : Item → Value
  | .value v => v
  | .table _ entries => .table (entriesValues entries)
  | .tables elements => .list (elementsValues elements)

/-- The values of entries. -/
def entriesValues : List (String × Item) → List (String × Value)
  | [] => []
  | (key, item) :: rest => (key, item.toValue) :: entriesValues rest

/-- The tables of a list of tables. -/
def elementsValues : List (List (String × Item)) → List Value
  | [] => []
  | entries :: rest => .table (entriesValues entries) :: elementsValues rest

end

/-! ## 2. Keys and the space between parts -/

/-- What follows the blanks. -/
def skipBlanks (cs : List Char) : List Char :=
  cs.dropWhile isBlank

/-- What follows blanks, line ends and comments.  A comment holds no control
characters. -/
def skipSpace : Bool → List Char → Option (List Char)
  | _, [] => some []
  | _, '\n' :: rest => skipSpace false rest
  | _, '\r' :: '\n' :: rest => skipSpace false rest
  | true, c :: rest => if isTextChar c then skipSpace true rest else none
  | false, '#' :: rest => skipSpace true rest
  | false, c :: rest => if isBlank c then skipSpace false rest else some (c :: rest)

/-- Whether a character may stand in a key without quotes. -/
def isKeyChar (c : Char) : Bool :=
  isDigit c || ('a' ≤ c && c ≤ 'z') || ('A' ≤ c && c ≤ 'Z') || c == '_' || c == '-'

/-- One part of a key. -/
def readKeyPart : List Char → Option (String × List Char)
  | '"' :: rest => (readBasic rest).map fun (cs, rest) => (String.ofList cs, rest)
  | '\'' :: rest => (readLiteral rest).map fun (cs, rest) => (String.ofList cs, rest)
  | cs =>
    let word := cs.takeWhile isKeyChar
    if word.isEmpty then none else some (String.ofList word, cs.drop word.length)

/-- A key: parts with dots between them, and what follows the blanks after it.  The
first argument bounds the number of parts. -/
def readKey : Nat → List Char → Option (List String × List Char)
  | 0, _ => none
  | fuel + 1, cs =>
    match readKeyPart (skipBlanks cs) with
    | none => none
    | some (part, rest) =>
      match skipBlanks rest with
      | '.' :: rest => (readKey fuel rest).map fun (parts, rest) => (part :: parts, rest)
      | rest => some ([part], rest)

/-- A key split into the tables it leads through and its last part. -/
def splitKey? (key : List String) : Option (List String × String) :=
  key.getLast?.map fun last => (key.dropLast, last)

/-! ## 3. Values -/

/-- Whether a character ends a word. -/
def endsWord (c : Char) : Bool :=
  " \t\r\n#,[]\x7b\x7d=\"'".toList.contains c

/-- A word, with a time of day that follows a date after one blank. -/
def readWord (cs : List Char) : List Char × List Char :=
  let word := cs.takeWhile fun c => !endsWord c
  let rest := cs.drop word.length
  match rest with
  | ' ' :: a :: b :: ':' :: more =>
    if date? word = some [] ∧ isDigit a ∧ isDigit b then
      let clock := (a :: b :: ':' :: more).takeWhile fun c => !endsWord c
      (word ++ ' ' :: clock, rest.drop (clock.length + 1))
    else (word, rest)
  | _ => (word, rest)

/-- Lists and tables in braces may be nested this deep. -/
def maxDepth : Nat := 80

mutual

/-- A value and what follows it.  The first argument bounds the search, the second
the nesting. -/
def readValue : Nat → Nat → List Char → Option (Value × List Char)
  | 0, _, _ => none
  | fuel + 1, depth, cs =>
    match cs with
    | '[' :: rest =>
      if depth = 0 then none
      else (readItems fuel (depth - 1) rest).map fun (items, rest) => (.list items, rest)
    | '{' :: rest =>
      if depth = 0 then none
      else (readPairs fuel (depth - 1) [] rest).map fun (entries, rest) =>
        (.table (entriesValues entries), rest)
    | '"' :: _ => (readQuoted? cs).map fun (text, rest) => (.text (String.ofList text), rest)
    | '\'' :: _ => (readQuoted? cs).map fun (text, rest) => (.text (String.ofList text), rest)
    | cs =>
      let (word, rest) := readWord cs
      (scalar? word).map fun v => (v, rest)

/-- Items up to the closing bracket; a comma may stand after the last one. -/
def readItems : Nat → Nat → List Char → Option (List Value × List Char)
  | 0, _, _ => none
  | fuel + 1, depth, cs =>
    match skipSpace false cs with
    | some (']' :: rest) => some ([], rest)
    | some cs =>
      match readValue fuel depth cs with
      | none => none
      | some (v, rest) =>
        match skipSpace false rest with
        | some (']' :: rest) => some ([v], rest)
        | some (',' :: rest) =>
          (readItems fuel depth rest).map fun (items, rest) => (v :: items, rest)
        | _ => none
    | none => none

/-- Pairs of keys and values up to the closing brace, added to the entries read
before; a comma may stand after the last one. -/
def readPairs : Nat → Nat → Entries → List Char → Option (Entries × List Char)
  | 0, _, _, _ => none
  | fuel + 1, depth, entries, cs =>
    match skipSpace false cs with
    | some ('}' :: rest) => some (entries, rest)
    | some cs =>
      match readKey fuel cs with
      | some (key, '=' :: rest) =>
        match readValue fuel depth (skipBlanks rest) with
        | none => none
        | some (v, rest) =>
          match splitKey? key with
          | none => none
          | some (path, last) =>
            match Entries.define path last v .header entries with
            | none => none
            | some entries =>
              match skipSpace false rest with
              | some ('}' :: rest) => some (entries, rest)
              | some (',' :: rest) => readPairs fuel depth entries rest
              | _ => none
      | _ => none
    | none => none

end

/-! ## 4. Lines -/

/-- What follows the end of a line: blanks, a comment, and a line end or nothing. -/
def finishLine (cs : List Char) : Option (List Char) :=
  let rest := match skipBlanks cs with
    | '#' :: rest => rest.dropWhile isTextChar
    | rest => rest
  match rest with
  | [] => some []
  | '\n' :: rest => some rest
  | '\r' :: '\n' :: rest => some rest
  | _ => none

/-- A header after its opening brackets: the key, and what follows the closing
ones. -/
def readHeader (brackets : List Char) (cs : List Char) :
    Option ((List String × String) × List Char) := do
  let (key, rest) ← readKey (cs.length + 1) cs
  if brackets.isPrefixOf rest then
    pure (← splitKey? key, ← finishLine (rest.drop brackets.length))
  else none

/-- The lines of a document, put into a tree.  The state is the tree and the path of
the table that keys belong to; the first argument bounds the number of lines. -/
def readLines : Nat → Entries → List String → List Char → Option Entries
  | 0, _, _, _ => none
  | fuel + 1, root, current, cs =>
    match skipSpace false cs with
    | none => none
    | some [] => some root
    | some ('[' :: '[' :: rest) =>
      match readHeader [']', ']'] rest with
      | none => none
      | some ((path, key), rest) =>
        match Entries.change false (Entries.append key) path .header root with
        | none => none
        | some root => readLines fuel root (path ++ [key]) rest
    | some ('[' :: rest) =>
      match readHeader [']'] rest with
      | none => none
      | some ((path, key), rest) =>
        match Entries.change false (Entries.name key) path .header root with
        | none => none
        | some root => readLines fuel root (path ++ [key]) rest
    | some cs =>
      match readKey (cs.length + 1) cs with
      | some (key, '=' :: rest) =>
        match readValue (2 * rest.length + 2) maxDepth (skipBlanks rest), splitKey? key with
        | some (v, rest), some (path, last) =>
          match finishLine rest, Entries.change false (Entries.define path last v)
            current .header root with
          | some rest, some root => readLines fuel root current rest
          | _, _ => none
        | _, _ => none
      | _ => none

/-- A mark of the encoding in front of a text is not part of it. -/
def skipMark : List Char → List Char
  | '\uFEFF' :: rest => rest
  | cs => cs

/-- The table that a document describes. -/
def ofText? (text : String) : Option Value :=
  let cs := skipMark text.toList
  (readLines (cs.length + 1) [] [] cs).map fun root => .table (entriesValues root)

end Toml
end AnalysisRunner
