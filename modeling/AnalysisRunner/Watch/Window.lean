import AnalysisRunner.Time.Duration
import AnalysisRunner.Watch.Change

/-!
# Collecting changes into batches

A window opens with the first change after a quiet period and closes a fixed time
later, however many changes follow.  The batch holds one change per path: a later
change of a path takes the place of the earlier one.

Times are clock readings of sixty-four bits.  The length of a window is cut to as many,
and a deadline that no clock can show comes out as an early one.
-/

namespace AnalysisRunner

/-- The changes collected since the window opened. -/
structure Window where
  length : UInt64
  batch : List Change
  deadline : Option UInt64
  deriving DecidableEq, Repr

namespace Window

/-- A window that has not opened. -/
def new (length : Duration) : Window :=
  ⟨length.span, [], none⟩

/-- Puts a change in the place of an earlier change of its path, or at the end. -/
def place (c : Change) : List Change → List Change
  | [] => [c]
  | d :: rest => if d.path.same c.path then c :: rest else d :: place c rest

/-- Collects a change; the first one opens the window. -/
def push (w : Window) (c : Change) (now : UInt64) : Window :=
  { w with batch := place c w.batch, deadline := some (w.deadline.getD (now + w.length)) }

/-- The batch, whether the window has closed or not; there is none if no change
was collected. -/
def flush (w : Window) : Option (List Change) × Window :=
  (if w.batch.isEmpty then none else some w.batch, { w with batch := [], deadline := none })

/-- The batch, if the window has closed. -/
def takeDue (w : Window) (now : UInt64) : Option (List Change) × Window :=
  match w.deadline with
  | some deadline => if deadline ≤ now then w.flush else (none, w)
  | none => (none, w)

end Window
end AnalysisRunner
