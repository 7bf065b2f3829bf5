import AnalysisRunner.Json.Written

/-!
# Records in documents

A record is read from a document in one of two forms: as members by name, where
unknown members are skipped and a member may stand only once, or as a list of its
fields in the order of declaration, of which the last ones may be missing.

The rules for records are the same for every kind of document; what differs is how
the kinds of values are told apart.  `Readable` names the questions that a record
asks of a document, and each kind of document answers them.
-/

namespace AnalysisRunner

/-- A kind of document from which records are read. -/
class Readable (ν : Type) where
  /-- The fields with the given names, in that order, each as it stands in the
  document if it stands there; `none` if the value is no record. -/
  fields? : List String → ν → Option (List (Option ν))
  bool? : ν → Option Bool
  nat? : ν → Option UInt64
  text? : ν → Option String
  list? : ν → Option (List ν)

namespace Readable

/-- A list of fields by position, filled up for the names that are left. -/
def byPosition (names : List String) (items : List ν) : List (Option ν) :=
  items.map some ++ List.replicate (names.length - items.length) none

/-- The one member with a given key; a repeated one is a fault. -/
def single? (members : List (String × ν)) (name : String) : Option (Option ν) :=
  match members.filter fun m => m.1 = name with
  | [] => some none
  | [m] => some (some m.2)
  | _ => none

/-- The fields by name. -/
def byName? (names : List String) (members : List (String × ν)) : Option (List (Option ν)) :=
  names.mapM (single? members)

/-- A field that may be missing, with the value it then has. -/
def optional (read? : ν → Option α) (default : α) : Option ν → Option α
  | none => some default
  | some v => read? v

/-- A field that must be there. -/
def required (read? : ν → Option α) : Option ν → Option α
  | none => none
  | some v => read? v

/-- A list of texts. -/
def texts? [Readable ν] (v : ν) : Option (List String) := do
  (← list? v).mapM text?

end Readable

/-- The natural number of a numeral, if it is written as one. -/
def Numeral.nat? (n : Numeral) : Option UInt64 :=
  match n.number? with
  | some (.nat k) => some k
  | _ => none

/-- The members of a written object, if every key is a text. -/
def Written.members? (members : List (List Glyph × Written)) : Option (List (String × Written)) :=
  members.mapM fun m => (Written.glyphText? m.1).map fun key => (key, m.2)

instance : Readable Written where
  fields? names
    | .array items =>
      if items.length ≤ names.length then some (Readable.byPosition names items) else none
    | .object members => do Readable.byName? names (← Written.members? members)
    | _ => none
  bool?
    | .bool b => some b
    | _ => none
  nat?
    | .numeral n => n.nat?
    | _ => none
  text?
    | .string gs => Written.glyphText? gs
    | _ => none
  list?
    | .array items => some items
    | _ => none

instance : Readable Json where
  fields? names
    | .array items =>
      if items.length ≤ names.length then some (Readable.byPosition names items) else none
    | .object members => Readable.byName? names members
    | _ => none
  bool?
    | .bool b => some b
    | _ => none
  nat?
    | .number (.nat n) => some n
    | _ => none
  text?
    | .string s => some s
    | _ => none
  list?
    | .array items => some items
    | _ => none

/-- A choice among names: the name alone, or an object whose one member has that
name and no content. -/
def Written.choice? : Written → Option String
  | .string gs => Written.glyphText? gs
  | .object [(key, .null)] => Written.glyphText? key
  | _ => none

end AnalysisRunner
