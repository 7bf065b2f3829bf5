import AnalysisRunner.Path.Basic

/-!
# Settings

What can be configured, in four groups: the cache of results, the pool that runs
tasks, watching, and the log.  Times are whole milliseconds or seconds, as they are
written in a settings file.
-/

namespace AnalysisRunner

/-- How results are kept. -/
structure CacheSettings where
  /-- Whether results are kept on disk between runs. -/
  persist : Bool
  /-- The directory of the kept results. -/
  directory : Path
  /-- How long a result is good for. -/
  lifetimeSeconds : UInt64
  /-- How many results are kept. -/
  capacity : UInt64
  deriving DecidableEq, Repr

/-- How tasks are run. -/
structure PoolSettings where
  /-- How many tasks run at a time. -/
  concurrency : UInt64
  /-- Whether the first failure ends a batch. -/
  stopOnError : Bool
  /-- How long a task may take; zero stands for any time. -/
  timeoutMillis : UInt64
  deriving DecidableEq, Repr

/-- How files are watched. -/
structure WatchSettings where
  /-- How long a file must be quiet before its change is reported. -/
  debounceMillis : UInt64
  /-- The time between two looks of a watcher that polls. -/
  pollMillis : UInt64
  /-- Whether to poll rather than to be notified. -/
  polling : Bool
  /-- How long changes are collected for one batch. -/
  windowMillis : UInt64
  /-- Whether changes are reported in batches. -/
  batching : Bool
  /-- The extensions of the files to watch. -/
  extensions : List String
  /-- The patterns of what is not watched. -/
  ignored : List String
  deriving DecidableEq, Repr

/-- What is logged. -/
structure LogSettings where
  level : String
  format : String
  deriving DecidableEq, Repr

/-- All settings. -/
structure Settings where
  cache : CacheSettings
  pool : PoolSettings
  watch : WatchSettings
  log : LogSettings
  deriving DecidableEq, Repr

/-- The settings where nothing is configured, on a machine with so many
processors. -/
def Settings.standard (processors : UInt64) : Settings where
  cache :=
    { persist := true
      directory := .ofText ".sollint-cache"
      lifetimeSeconds := 24 * 60 * 60
      capacity := 10000 }
  pool :=
    { concurrency := if processors = 0 then 1 else processors
      stopOnError := false
      timeoutMillis := 30000 }
  watch :=
    { debounceMillis := 300
      pollMillis := 1000
      polling := false
      windowMillis := 500
      batching := true
      extensions := ["sol"]
      ignored := ["node_modules", ".git", ".sollint-cache"] }
  log :=
    { level := "info"
      format := "pretty" }

end AnalysisRunner
