import AnalysisRunner.Path.Basic
import AnalysisRunner.Text.Quoted
import AnalysisRunner.Watch.Change

/-!
# Where notifications come from

A backend sends notifications about the paths that were subscribed.  There are two
kinds: one that the system notifies, and one that polls.  Either can fail to come up,
and a subscription can be refused.
-/

namespace AnalysisRunner

/-- What a notification says about its paths. -/
inductive NotificationKind where
  | create
  | remove
  | modify
  | access
  /-- Something else, or nothing in particular. -/
  | other
  deriving DecidableEq, Repr

/-- The change that a notification suggests; a mere access suggests none. -/
def NotificationKind.change? : NotificationKind → Option ChangeKind
  | .create => some .add
  | .remove => some .remove
  | .modify => some .change
  | .other => some .change
  | .access => none

/-- A complaint of a backend. -/
structure BackendFault where
  message : String
  paths : List Path
  deriving DecidableEq, Repr

/-- The text of a complaint, with the paths it is about. -/
def BackendFault.text (fault : BackendFault) : String :=
  if fault.paths.isEmpty then fault.message
  else fault.message ++ " about " ++ Quoted.list (fault.paths.map Path.bytes)

/-- How the backends answer. -/
structure Backend where
  /-- Why there are no notifications by the system, if there are none. -/
  nativeFault : Option BackendFault
  /-- Why there is no polling, if there is none. -/
  pollFault : Option BackendFault
  /-- Why a subscription is refused, if it is. -/
  refusal : Path → Option BackendFault

/-- What is asked of a backend. -/
inductive BackendCall where
  | native
  /-- Polling, so many milliseconds apart, comparing contents. -/
  | poll (interval : Nat)
  | subscribe (path : Path) (recursive accepted : Bool)
  deriving DecidableEq, Repr

end AnalysisRunner
