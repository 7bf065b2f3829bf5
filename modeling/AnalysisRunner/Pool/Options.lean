/-!
# How a pool is set up
-/

namespace AnalysisRunner

/-- The limits of a pool. -/
structure PoolOptions where
  /-- How many tasks may be in flight. -/
  limit : Nat
  /-- Whether nothing more is dispatched after a failure. -/
  stopOnError : Bool
  /-- How many milliseconds a task may take. -/
  timeout : Option Nat
  deriving DecidableEq, Repr

/-- One task at a time, for as long as it takes, whatever fails. -/
def PoolOptions.standard : PoolOptions where
  limit := 1
  stopOnError := false
  timeout := none

end AnalysisRunner
