import AnalysisRunner.Cache.Persist
import AnalysisRunner.CommandLine.Invocation
import AnalysisRunner.CommandLine.Screen
import AnalysisRunner.Settings.Derived
import AnalysisRunner.Settings.Load
import AnalysisRunner.Text.Causes
import AnalysisRunner.Watch.Session

/-!
# Running a command

A command sees a disk, the environment and the time, and leaves a disk and lines of
text, or an error.  The watch command goes on: it opens a session, and then shows what
the session delivers until it is told to stop.
-/

namespace AnalysisRunner

/-- What a command sees. -/
structure Host where
  disk : FileTree
  environment : Environment
  home : Option Path
  processors : UInt64
  /-- The time in milliseconds. -/
  now : UInt64

/-- What a command leaves. -/
structure CommandResult where
  disk : FileTree
  lines : List String
  /-- The error that ended it, if one did. -/
  error : Option String

/-- A watch command that goes on. -/
structure WatchRun where
  session : Session
  format : OutputFormat
  styled : Bool

/-- How a command goes. -/
inductive Course where
  | done (result : CommandResult)
  | watching (run : WatchRun) (lines : List String)

namespace Host

/-- Whether text is styled: only if the environment asks for it. -/
def styled (h : Host) : Bool :=
  (h.environment "CLICOLOR_FORCE").any (· ≠ "0")

/-- A command that failed, and why. -/
def failed (disk : FileTree) (causes : List String) : CommandResult :=
  ⟨disk, [], some (causeText causes)⟩

/-- A command that has something to show. -/
def shown (h : Host) (format : OutputFormat) (disk : FileTree) (v : Json) : CommandResult :=
  ⟨disk, format.lines h.styled v, none⟩

/-- The settings where nothing is configured. -/
def standard (h : Host) : Settings :=
  .standard h.processors

/-! ## 1. The cache -/

/-- The cache of the settings, which is always on disk here. -/
def openCache (s : Settings) : Cache :=
  .new { s.cacheOptions with persistent := true }

/-- The record of the saved cache of the settings. -/
def savedRecord (h : Host) (s : Settings) : Option SaveRecord :=
  Archive.readRecord s.cache.directory h.disk

/-- The moment of a clock reading: a reading beyond the signed numbers counts as one
before the epoch. -/
def moment? (millis : UInt64) : Option Timestamp :=
  let n : Int := millis.toNat
  Timestamp.ofMillis? (if n < Nat.pow 2 63 then n else n - Nat.pow 2 64)

/-- Shows the accounts of the saved cache. -/
def cacheStats (h : Host) (format : OutputFormat) (s : Settings) : CommandResult :=
  match (openCache s).load h.now h.disk with
  | (.error fault, _) => failed h.disk ("Failed to read cache" :: fault.causes)
  | (.ok restored, c) =>
    let r := h.savedRecord s
    h.shown format h.disk (.object
      [("directory", .string s.cache.directory.shown),
       ("entries", .ofNat restored),
       ("stored_entries", .ofOption (fun r => .number (.nat r.count)) r),
       ("saved_at", .ofOption (fun (t : Timestamp) => .string t.text)
          (r.bind fun r => moment? r.savedAt)),
       ("stats", c.statsJson)])

/-- Drops what is too old from the saved cache.  Without a record of the save, the
cache is left as it is. -/
def cacheClean (h : Host) (format : OutputFormat) (s : Settings) : CommandResult :=
  let stored := (h.savedRecord s).map fun r => r.count.toNat
  match (openCache s).load h.now h.disk with
  | (.error fault, _) => failed h.disk ("Failed to read cache" :: fault.causes)
  | (.ok restored, c) =>
    let (dropped, c) := c.cleanup h.now
    let removed := dropped + (stored.map fun n => n - restored).getD 0
    let (disk, saved) := if stored.isSome then c.save h.now h.disk else (h.disk, .ok ())
    match saved with
    | .error fault => failed disk ("Failed to write cache" :: fault.causes)
    | .ok () =>
      h.shown format disk (.object
        [("directory", .string s.cache.directory.shown),
         ("removed", .ofNat removed),
         ("remaining", .ofNat c.size)])

/-- Deletes the saved cache. -/
def cacheClear (h : Host) (format : OutputFormat) (s : Settings) : CommandResult :=
  match (openCache s).deleteSaved h.disk with
  | (disk, .error fault) => failed disk ("Failed to delete cache" :: fault.causes)
  | (disk, .ok ()) =>
    h.shown format disk (.object
      [("directory", .string s.cache.directory.shown), ("cleared", .bool true)])

/-! ## 2. Settings -/

/-- Writes a settings file with the standard settings. -/
def configInit (h : Host) (format : OutputFormat) (file : Path) : CommandResult :=
  match h.standard.create h.disk file h.now.toNat with
  | (disk, .error fault) => failed disk ["Failed to write " ++ file.shown, fault.message]
  | (disk, .ok ()) => h.shown format disk (.object [("created", .string file.shown)])

/-- Shows the settings in force. -/
def configShow (h : Host) (format : OutputFormat) (loaded : Settings.Loaded) : CommandResult :=
  h.shown format h.disk (.object
    [("source", .ofOption (fun p => .string p.shown) loaded.file),
     ("config", loaded.settings.json)])

end Host

/-! ## 3. Watching -/

namespace WatchRun

/-- The text of a kind of change, in a column of six. -/
def kindText (styled : Bool) (kind : ChangeKind) : String :=
  match kind with
  | .add => Style.green.paint styled "   add"
  | .change => Style.yellow.paint styled "change"
  | .remove => Style.red.paint styled "remove"

/-- The line of a change in the plain form. -/
def changeLine (styled : Bool) (c : Change) : String :=
  Style.dim.paint styled (String.ofList c.time.clockChars) ++ " " ++ kindText styled c.kind ++
    " " ++ c.path.shown

/-- The lines of a delivery. -/
def deliveryLines (r : WatchRun) : Delivery → List String
  | .ready files =>
    [Style.heading.paint r.styled "Watching" ++ " " ++
      Style.yellow.paint r.styled (decimal files) ++ " files, press Ctrl-C to stop"]
  | .batch changes =>
    match r.format with
    | .json => [(Json.array (changes.map Change.json)).compact]
    | .pretty => changes.map (changeLine r.styled)

/-- The lines when watching stops. -/
def stopLines (r : WatchRun) : List String :=
  match r.format with
  | .json => []
  | .pretty =>
    [Style.heading.paint r.styled "Stopped." ++ " " ++
      Style.yellow.paint r.styled (decimal r.session.watcher.table.changes) ++
      " changes detected"]

end WatchRun

/-- The options of a watch command: polling and single changes can be asked for on top
of the settings. -/
def Settings.watchOptions (s : Settings) (polling single : Bool) : SessionOptions :=
  let o := s.sessionOptions
  { watcher := { o.watcher with polling := o.watcher.polling || polling }
    window := o.window
    batching := o.batching && !single }

/-- Opens the session of a watch command. -/
def Host.watch (h : Host) (format : OutputFormat) (s : Settings) (backend : Backend)
    (paths : List Path) (polling single : Bool) : Course :=
  match Session.start (s.watchOptions polling single) (format = .pretty) backend h.disk paths 0 with
  | .error fault => .done (failed h.disk ("Failed to start watcher" :: fault.causes))
  | .ok (handed, session, _) =>
    let run : WatchRun := ⟨session, format, h.styled⟩
    .watching run (handed.flatMap run.deliveryLines)

/-- Runs a command.  Writing a settings file does not depend on the settings in force. -/
def Invocation.run (i : Invocation) (h : Host) (backend : Backend) : Course :=
  match i.command with
  | .configInit file => .done (h.configInit i.output file)
  | command =>
    match Settings.load h.standard h.disk h.environment h.home i.config with
    | .error fault =>
      .done (Host.failed h.disk ["Failed to load configuration", fault.message])
    | .ok loaded =>
      match command with
      | .configInit file => .done (h.configInit i.output file)
      | .configShow => .done (h.configShow i.output loaded)
      | .cacheStats => .done (h.cacheStats i.output loaded.settings)
      | .cacheClean => .done (h.cacheClean i.output loaded.settings)
      | .cacheClear => .done (h.cacheClear i.output loaded.settings)
      | .watch paths polling single =>
        h.watch i.output loaded.settings backend paths polling single

/-- The line of an error. -/
def Host.errorLine (h : Host) (error : String) : String :=
  Style.alarm.paint h.styled "Error:" ++ " " ++ error

/-! ## 4. What a command looks at -/

/-- The variables that commands look at. -/
def Host.variables : List String :=
  ["CLICOLOR_FORCE", "RUST_LOG", "SOLLINT_CACHE_DIR", "SOLLINT_CACHE_MAX_ENTRIES",
   "SOLLINT_CACHE_PERSIST", "SOLLINT_CACHE_TTL_SECS", "SOLLINT_LOG_FORMAT",
   "SOLLINT_MAX_CONCURRENCY", "SOLLINT_STOP_ON_ERROR", "SOLLINT_TASK_TIMEOUT_MS",
   "SOLLINT_WATCH_AGGREGATION_MS", "SOLLINT_WATCH_DEBOUNCE_MS", "SOLLINT_WATCH_POLLING"]

/-- The files that decide the settings, and the one that is to be made. -/
def Invocation.settingsFiles (i : Invocation) (home : Option Path) : List Path :=
  let made := match i.command with
    | .configInit file => [file]
    | _ => []
  Settings.localFile :: (home.map Settings.homeFile).toList ++ i.config.toList ++ made

/-- The files and directories that are looked at once the settings are known. -/
def Invocation.furtherPaths (i : Invocation) (s : Settings) : List Path :=
  match i.command with
  | .watch paths _ _ => paths
  | .cacheStats | .cacheClean | .cacheClear => [s.cache.directory]
  | .configInit _ | .configShow => []

/-- The line that names the version. -/
def versionLine : String :=
  "sollint 1.0.0"

end AnalysisRunner
