import AnalysisRunner.Time.Duration

/-!
# How a watcher is set up
-/

namespace AnalysisRunner

/-- What a watcher looks at, and how often. -/
structure WatcherOptions where
  /-- How long a path must be quiet before it is looked at. -/
  debounce : Duration
  /-- The time between two looks, if the watcher polls. -/
  pollInterval : Duration
  /-- Whether to poll rather than to be notified. -/
  polling : Bool
  extensions : List String
  ignored : List String
  deriving DecidableEq, Repr

/-- A watcher of Solidity sources outside of package and version control
directories. -/
def WatcherOptions.standard : WatcherOptions where
  debounce := ⟨300⟩
  pollInterval := ⟨1000⟩
  polling := false
  extensions := ["sol"]
  ignored := ["node_modules", ".git"]

/-- How a watch session is set up. -/
structure SessionOptions where
  watcher : WatcherOptions
  /-- How long changes are collected for one batch. -/
  window : Duration
  /-- Whether changes are delivered in batches. -/
  batching : Bool
  deriving DecidableEq, Repr

end AnalysisRunner
