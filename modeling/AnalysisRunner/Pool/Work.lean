import AnalysisRunner.Text.Causes
import AnalysisRunner.Text.Decimal

/-!
# Work and its outcome

Seen from outside, a piece of work pauses for some times, one after the other, and
then ends: with a value, with an error, or by crashing.  Whoever runs it may also
give up on it after a time limit.  All that is left in the end is an outcome, a value
or the text of a failure.
-/

namespace AnalysisRunner

/-- How work ends on its own. -/
inductive Ending (ο : Type) where
  | value (o : ο)
  /-- An error with its chain of causes, the outermost first. -/
  | error (causes : List String)
  /-- A crash, with its message if it left one. -/
  | crash (message : Option String)
  deriving Repr

/-- Work: its pauses in milliseconds, and how it ends. -/
structure Work (ο : Type) where
  pauses : List Nat
  ending : Ending ο
  deriving Repr

/-- What is left of work. -/
inductive Outcome (ο : Type) where
  | output (o : ο)
  | failure (error : String)
  deriving DecidableEq, Repr

namespace Outcome

/-- Whether the work failed. -/
def isFailure {ο : Type} : Outcome ο → Bool
  | .output _ => false
  | .failure _ => true

/-- The value, if there is one. -/
def output? {ο : Type} : Outcome ο → Option ο
  | .output o => some o
  | .failure _ => none

/-- The text of the failure, if there is one. -/
def error? {ο : Type} : Outcome ο → Option String
  | .output _ => none
  | .failure error => some error

/-- The outcome of work that was given up after so many milliseconds. -/
def timedOut {ο : Type} (id : String) (limit : Nat) : Outcome ο :=
  .failure ("Task " ++ id ++ " timed out after " ++ decimal limit ++ "ms")

end Outcome

/-- The outcome of work that ended on its own. -/
def Ending.outcome {ο : Type} : Ending ο → Outcome ο
  | .value o => .output o
  | .error causes => .failure (causeText causes)
  | .crash message => .failure ("Task panicked: " ++ message.getD "unknown panic")

end AnalysisRunner
