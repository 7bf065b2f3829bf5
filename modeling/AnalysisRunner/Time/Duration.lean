/-!
# Lengths of time

A length of time is a whole number of milliseconds.  Where it meets a clock it is
cut to the sixty-four bits of a clock reading, so a length of `2 ^ 64` milliseconds
acts as none at all.
-/

namespace AnalysisRunner

/-- A length of time. -/
structure Duration where
  millis : Nat
  deriving DecidableEq, Repr

namespace Duration

/-- A number of seconds. -/
def ofSeconds (n : Nat) : Duration :=
  ⟨n * 1000⟩

/-- Whole seconds, rounded down. -/
def seconds (d : Duration) : Nat :=
  d.millis / 1000

/-- The milliseconds that a clock can tell: the low sixty-four bits. -/
def ticks (d : Duration) : Nat :=
  d.millis % Nat.pow 2 64

/-- What is added to a clock reading, to tell when a length of time will be over. -/
def span (d : Duration) : UInt64 :=
  d.millis.toUInt64

end Duration
end AnalysisRunner
