import AnalysisRunner.Watch.Backend
import AnalysisRunner.Watch.Debounce
import AnalysisRunner.Watch.Options
import AnalysisRunner.Watch.Scan

/-!
# Watchers

A watcher turns notifications into changes.  A notification about a path only starts
the path's quiet period; when that is over, the watch table is compared with the disk,
and what has changed is reported.

A watcher is idle or watches.  While it is idle nothing is watched and only its counts
are kept.
-/

namespace AnalysisRunner

/-- What a watcher reports. -/
inductive WatchEvent where
  /-- Watching has begun, with so many files. -/
  | ready (files : Nat)
  | change (c : Change)
  | error (message : String) (paths : List Path)
  deriving DecidableEq, Repr

/-- Why a watcher refuses. -/
inductive WatchFault where
  | alreadyRunning
  | notRunning
  /-- A text is no pattern. -/
  | pattern (text : String) (fault : Glob.Fault)
  | backend (fault : BackendFault)

/-- What is said about a refusal. -/
def WatchFault.message : WatchFault → String
  | .alreadyRunning => "Watcher is already running"
  | .notRunning => "Watcher is not running"
  | .pattern text fault => "Invalid ignore pattern: " ++ fault.message text
  | .backend fault => "Notify error: " ++ fault.text

/-- A refusal with its cause. -/
def WatchFault.causes (fault : WatchFault) : List String :=
  match fault with
  | .pattern text cause => [fault.message, cause.message text]
  | .backend cause => [fault.message, cause.text]
  | _ => [fault.message]

/-- A watcher. -/
structure Watcher where
  options : WatcherOptions
  table : WatchTable
  /-- The directories that the backend notifies about. -/
  subscribed : PathSet
  /-- The notifications that wait for quiet, while the watcher watches. -/
  pending : Option Debouncer

/-- What an operation brings about: the watcher after it, the events it reports, and
what it asks of the backend. -/
structure Reaction where
  watcher : Watcher
  events : List WatchEvent
  calls : List BackendCall

namespace Watcher

/-- An idle watcher. -/
def new (options : WatcherOptions) : Except WatchFault Watcher :=
  match Filter.ofTexts options.extensions options.ignored with
  | .ok filter => .ok ⟨options, .new filter, .empty, none⟩
  | .error (text, fault) => .error (.pattern text fault)

/-- Whether the watcher watches. -/
def isWatching (w : Watcher) : Bool :=
  w.pending.isSome

/-! ## 1. Subscriptions -/

/-- Subscribes to a directory; a refusal is reported and nothing more. -/
def subscribe (backend : Backend) (recursive : Bool) (r : Reaction) (dir : Path) : Reaction :=
  match backend.refusal dir with
  | none =>
    { watcher := { r.watcher with subscribed := PathSet.add r.watcher.subscribed dir }
      events := r.events
      calls := r.calls ++ [.subscribe dir recursive true] }
  | some fault =>
    { watcher := r.watcher
      events := r.events ++ [.error fault.text [dir]]
      calls := r.calls ++ [.subscribe dir recursive false] }

/-- Subscribes to the directory of a file that no watched directory covers, unless
that is done. -/
def subscribeParent (backend : Backend) (isCovered : Path → Bool) (r : Reaction) (file : Path) :
    Reaction :=
  match file.parent? with
  | none => r
  | some dir =>
    if isCovered dir || r.watcher.subscribed.has dir then r
    else subscribe backend false r dir

/-- Brings up a backend: that of the system, unless polling is asked for, and polling
if there is no other. -/
def bringUp (w : Watcher) (backend : Backend) : Except WatchFault BackendCall :=
  let poll : Except WatchFault BackendCall :=
    match backend.pollFault with
    | some fault => .error (.backend fault)
    | none => .ok (.poll w.options.pollInterval.millis)
  if w.options.polling then poll
  else
    match backend.nativeFault with
    | none => .ok .native
    | some _ => poll

/-! ## 2. Watching -/

/-- What a path to watch is: a directory, or a file as it is seen now; a path that
leads nowhere is neither. -/
def classify (disk : FileTree) (p : Path) : List Path × List WatchEntry :=
  match disk.canonical p with
  | .error _ => ([], [])
  | .ok path =>
    match disk.look path with
    | .directory => ([path], [])
    | .file signature => ([], [⟨path, some signature⟩])
    | .missing => ([], [])

/-- The table at the beginning of a session. -/
def opened (t : WatchTable) (roots : List Path) (scanned files : List WatchEntry) : WatchTable :=
  let t := { t.forget with roots }
  let t := scanned.foldl (fun t e => t.track e.path e.signature) t
  files.foldl (fun t e =>
    WatchTable.track { t with explicit := PathSet.add t.explicit e.path } e.path e.signature) t

/-- Begins to watch directories and files.  Directories are scanned, and what is
subscribed is subscribed before that. -/
def watch (w : Watcher) (backend : Backend) (disk : FileTree) (paths : List Path) :
    Except WatchFault Reaction :=
  if w.isWatching then .error .alreadyRunning
  else
    match w.bringUp backend with
    | .error fault => .error fault
    | .ok call =>
      let found := paths.map (classify disk)
      let roots := found.flatMap Prod.fst
      let files := found.flatMap Prod.snd
      let r : Reaction := ⟨{ w with subscribed := .empty }, [], [call]⟩
      let r := roots.foldl (subscribe backend true) r
      let isCovered (dir : Path) : Bool := roots.any fun root => dir.startsWith root
      let r := files.foldl (fun r e => subscribeParent backend isCovered r e.path) r
      let scanned := roots.flatMap fun root => disk.scan w.table.filter root root
      let table := opened w.table roots scanned files
      .ok
        { watcher := { r.watcher with table, pending := some (.new w.options.debounce) }
          events := r.events ++ [.ready table.tracked.size]
          calls := r.calls }

/-- A path without links and dots if it leads somewhere, else as it is. -/
def resolve (disk : FileTree) (p : Path) : Path :=
  match disk.canonical p with
  | .ok path => path
  | .error _ => p

/-- Watches one more file, whatever the filter says; a file that is missing is
reported when it appears. -/
def addFile (w : Watcher) (backend : Backend) (disk : FileTree) (p : Path) :
    Except WatchFault Reaction :=
  if !w.isWatching then .error .notRunning
  else
    let path := resolve disk p
    let t := w.table
    let t := { t with
      excluded := t.excluded.remove path
      explicit := PathSet.add t.explicit path }
    let t := match disk.look path with
      | .file signature => t.track path (some signature)
      | _ => t
    .ok (subscribeParent backend (fun _ => (t.rootFor path).isSome) ⟨{ w with table := t }, [], []⟩
      path)

/-- No longer watches a file, and says whether it was tracked. -/
def removeFile (w : Watcher) (disk : FileTree) (p : Path) : Except WatchFault (Bool × Watcher) :=
  if !w.isWatching then .error .notRunning
  else
    let path := resolve disk p
    let t := w.table
    .ok (t.tracked.has path,
      { w with
        table :=
          { t with
            explicit := t.explicit.remove path
            excluded := PathSet.add t.excluded path
            tracked := t.tracked.remove path } })

/-- Ends watching.  Notifications that wait are dropped. -/
def close (w : Watcher) : Watcher :=
  { w with table := w.table.forget, subscribed := .empty, pending := none }

/-! ## 3. Notifications -/

/-- Takes a notification at a time. -/
def notify (w : Watcher) (kind : NotificationKind) (paths : List Path) (now : UInt64) : Watcher :=
  match w.pending, kind.change? with
  | some d, some suggested =>
    let relevant := paths.filter w.table.isRelevant
    { w with pending := some (relevant.foldl (fun d p => d.record p suggested now) d) }
  | _, _ => w

/-- The next time at which something is to be looked at. -/
def nextDeadline (w : Watcher) : Option UInt64 :=
  w.pending.bind Debouncer.nextDeadline

/-- Looks at the paths whose quiet period is over at a time. -/
def settleDue (w : Watcher) (disk : FileTree) (time : Timestamp) (now : UInt64) :
    List Change × Watcher :=
  match w.pending with
  | none => ([], w)
  | some d =>
    let (due, d) := d.drain now
    let (changes, table) := w.table.settleAll disk time (due.map Prod.fst)
    (changes, { w with table, pending := some d })

/-- Looks at all paths whose quiet period is over up to a time, those that were quiet
first before the others.  The first argument bounds the number of looks. -/
def passFor (disk : FileTree) (time : Timestamp) (horizon : UInt64) :
    Nat → Watcher → List Change × Watcher
  | 0, w => ([], w)
  | fuel + 1, w =>
    match w.nextDeadline with
    | none => ([], w)
    | some instant =>
      if horizon < instant then ([], w)
      else
        let first := w.settleDue disk time instant
        let others := passFor disk time horizon fuel first.2
        (first.1 ++ others.1, others.2)

/-- How many paths wait for quiet. -/
def waiting (w : Watcher) : Nat :=
  (w.pending.map Debouncer.size).getD 0

/-- Lets time pass up to an instant, on a disk that stays as it is. -/
def pass (w : Watcher) (disk : FileTree) (time : Timestamp) (horizon : UInt64) :
    List Change × Watcher :=
  passFor disk time horizon (w.waiting + 1) w

end Watcher
end AnalysisRunner
