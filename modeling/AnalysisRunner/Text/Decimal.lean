/-!
# Decimal text

The digits of a natural number as they appear in messages, keys and documents.
-/

namespace AnalysisRunner

/-- A natural number in decimal, without leading zeros. -/
def decimal (n : Nat) : String :=
  String.ofList (Nat.toDigits 10 n)

end AnalysisRunner
