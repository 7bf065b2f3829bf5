import AnalysisRunner.Watch.Watcher
import AnalysisRunner.Watch.Window

/-!
# Watch sessions

A session is a watcher together with a dispatcher, which hands the changes that the
watcher reports to whoever asked for them: collected in a window, one batch after the
other, or each alone as it comes.

When a session ends, what the window holds is handed out, whether its time is over or
not; what the watcher has not looked at yet is not.
-/

namespace AnalysisRunner

/-- What is handed out. -/
inductive Delivery where
  | ready (files : Nat)
  | batch (changes : List Change)
  deriving DecidableEq, Repr

/-- What hands out changes. -/
structure Dispatcher where
  /-- The window in which changes are collected, if they are. -/
  window : Option Window
  /-- Whether somebody waits to hear that watching has begun. -/
  awaitsReady : Bool
  deriving DecidableEq, Repr

namespace Dispatcher

/-- The dispatcher of a session. -/
def new (options : SessionOptions) (awaitsReady : Bool) : Dispatcher where
  window := if options.batching then some (.new options.window) else none
  awaitsReady

/-- Takes an event of the watcher at a time. -/
def handle (d : Dispatcher) (now : UInt64) : WatchEvent → List Delivery × Dispatcher
  | .ready files =>
    if d.awaitsReady then ([.ready files], { d with awaitsReady := false }) else ([], d)
  | .change c =>
    match d.window with
    | some w => ([], { d with window := some (w.push c now) })
    | none => ([.batch [c]], d)
  | .error _ _ => ([], d)

/-- Takes events in order. -/
def handleAll (d : Dispatcher) (now : UInt64) : List WatchEvent → List Delivery × Dispatcher
  | [] => ([], d)
  | e :: rest =>
    let first := d.handle now e
    let others := first.2.handleAll now rest
    (first.1 ++ others.1, others.2)

/-- When the window closes. -/
def deadline (d : Dispatcher) : Option UInt64 :=
  d.window.bind Window.deadline

/-- Hands out what the window took, if it closes. -/
def takeDue (d : Dispatcher) (now : UInt64) : List Delivery × Dispatcher :=
  match d.window with
  | none => ([], d)
  | some w =>
    let (batch, w) := w.takeDue now
    (batch.toList.map .batch, { d with window := some w })

/-- Hands out what the window holds. -/
def finish (d : Dispatcher) : List Delivery × Dispatcher :=
  match d.window with
  | none => ([], d)
  | some w =>
    let (batch, w) := w.flush
    (batch.toList.map .batch, { d with window := some w })

end Dispatcher

/-- A watch session. -/
structure Session where
  watcher : Watcher
  dispatcher : Dispatcher

namespace Session

/-- The earlier of two times. -/
def earlier : Option UInt64 → Option UInt64 → Option UInt64
  | some a, some b => some (min a b)
  | some a, none => some a
  | none, b => b

/-- The next time at which something happens by itself. -/
def nextInstant (s : Session) : Option UInt64 :=
  earlier s.dispatcher.deadline s.watcher.nextDeadline

/-- What happens at an instant: a window that closes is handed out before paths are
looked at. -/
def tick (s : Session) (disk : FileTree) (time : Timestamp) (now : UInt64) :
    List Delivery × Session :=
  let (closed, dispatcher) := s.dispatcher.takeDue now
  let (changes, watcher) := s.watcher.settleDue disk time now
  let (handed, dispatcher) := dispatcher.handleAll now (changes.map .change)
  (closed ++ handed, ⟨watcher, dispatcher⟩)

/-- Lets time pass up to an instant.  The first argument bounds the number of
instants at which something happens. -/
def passFor (disk : FileTree) (time : Timestamp) (horizon : UInt64) :
    Nat → Session → List Delivery × Session
  | 0, s => ([], s)
  | fuel + 1, s =>
    match s.nextInstant with
    | none => ([], s)
    | some instant =>
      if horizon < instant then ([], s)
      else
        let first := s.tick disk time instant
        let others := passFor disk time horizon fuel first.2
        (first.1 ++ others.1, others.2)

/-- Lets time pass up to an instant, on a disk that stays as it is. -/
def pass (s : Session) (disk : FileTree) (time : Timestamp) (horizon : UInt64) :
    List Delivery × Session :=
  passFor disk time horizon (2 * s.watcher.waiting + 2) s

/-- Takes a notification at a time. -/
def notify (s : Session) (kind : NotificationKind) (paths : List Path) (now : UInt64) : Session :=
  { s with watcher := s.watcher.notify kind paths now }

/-- Opens a session on paths. -/
def start (options : SessionOptions) (awaitsReady : Bool) (backend : Backend) (disk : FileTree)
    (paths : List Path) (now : UInt64) :
    Except WatchFault (List Delivery × Session × Reaction) :=
  match Watcher.new options.watcher with
  | .error fault => .error fault
  | .ok w =>
    match w.watch backend disk paths with
    | .error fault => .error fault
    | .ok r =>
      let (handed, dispatcher) := (Dispatcher.new options awaitsReady).handleAll now r.events
      .ok (handed, ⟨r.watcher, dispatcher⟩, r)

/-- Ends a session. -/
def close (s : Session) : List Delivery × Session :=
  let (handed, dispatcher) := s.dispatcher.finish
  (handed, ⟨s.watcher.close, dispatcher⟩)

end Session
end AnalysisRunner
