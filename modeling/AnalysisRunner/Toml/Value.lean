import AnalysisRunner.Json.Record

/-!
# TOML values

What a TOML document holds.  Binary fractions and points in time are kept as they
are spelled: nothing here computes with them, and they only have to be well formed.
-/

namespace AnalysisRunner
namespace Toml

/-- A value of a document. -/
inductive Value where
  | text (s : String)
  | integer (i : Int)
  | real (spelling : String)
  | boolean (b : Bool)
  | moment (spelling : String)
  | list (items : List Value)
  | table (entries : List (String × Value))
  deriving Repr

/-- The naturals that a document can hold. -/
def Value.nat? : Value → Option UInt64
  | .integer i => if 0 ≤ i ∧ i < (Nat.pow 2 64 : Nat) then some i.toNat.toUInt64 else none
  | _ => none

/-- Of a list that stands for a record, the items beyond its fields are not looked
at.  A point in time counts as a record of which no field is known. -/
instance : Readable Value where
  fields? names
    | .list items => some (Readable.byPosition names (items.take names.length))
    | .table entries => Readable.byName? names entries
    | .moment _ => some (names.map fun _ => none)
    | _ => none
  bool?
    | .boolean b => some b
    | _ => none
  nat? := Value.nat?
  text?
    | .text s => some s
    | _ => none
  list?
    | .list items => some items
    | _ => none

end Toml
end AnalysisRunner
