import AnalysisRunner.Path.Table
import AnalysisRunner.Time.Duration
import AnalysisRunner.Watch.Change

/-!
# Waiting for quiet

A burst of notifications about one path is reported once, when the path has been
quiet for a full delay.  Each notification moves the path's deadline; the kinds of
the burst are merged so that what is reported is their net effect.

Times are clock readings of sixty-four bits, and a deadline that no clock can show comes
out as an early one.
-/

namespace AnalysisRunner

/-- The net effect of two notifications in a row; a file that came and went again
leaves none. -/
def ChangeKind.merge? : ChangeKind → ChangeKind → Option ChangeKind
  | .add, .remove => none
  | .add, _ => some .add
  | .remove, .add => some .change
  | .remove, .change => some .change
  | .change, .add => some .change
  | _, next => some next

/-- A notification that waits for its path to be quiet. -/
structure Pending where
  kind : ChangeKind
  deadline : UInt64
  deriving DecidableEq, Repr

/-- The notifications that wait. -/
structure Debouncer where
  delay : UInt64
  pending : PathTable Pending

namespace Debouncer

/-- A debouncer with nothing pending. -/
def new (delay : Duration) : Debouncer :=
  ⟨delay.span, .empty⟩

/-- Takes a notification: the path has to be quiet from now on. -/
def record (d : Debouncer) (p : Path) (kind : ChangeKind) (now : UInt64) : Debouncer :=
  let deadline := now + d.delay
  let merged := match d.pending.find? p with
    | some previous => previous.kind.merge? kind
    | none => some kind
  match merged with
  | some kind => { d with pending := d.pending.put p ⟨kind, deadline⟩ }
  | none => { d with pending := d.pending.remove p }

/-- Forgets what is pending for a path. -/
def cancel (d : Debouncer) (p : Path) : Debouncer :=
  { d with pending := d.pending.remove p }

/-- Whether something is pending for a path. -/
def isPending (d : Debouncer) (p : Path) : Bool :=
  d.pending.has p

/-- The earliest deadline. -/
def nextDeadline (d : Debouncer) : Option UInt64 :=
  (d.pending.values.map fun e => e.2.deadline).min?

/-- The paths that have been quiet long enough, in the order of paths, and the
debouncer without them. -/
def drain (d : Debouncer) (now : UInt64) : List (Path × ChangeKind) × Debouncer :=
  let due : PathTable Pending := d.pending.filter fun _ e => e.2.deadline ≤ now
  let left : PathTable Pending := d.pending.filter fun _ e => ! (e.2.deadline ≤ now)
  (due.sorted.map fun e => (e.1, e.2.kind), { d with pending := left })

/-- How many paths are pending. -/
def size (d : Debouncer) : Nat :=
  d.pending.size

end Debouncer
end AnalysisRunner
