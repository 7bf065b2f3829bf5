/-!
# Chains of causes

An error is reported together with what caused it, what caused that, and so on, in
one line with the outermost first.
-/

namespace AnalysisRunner

/-- A chain of causes as one line. -/
def causeText (causes : List String) : String :=
  ": ".intercalate causes

end AnalysisRunner
