import AnalysisRunner.Cache.Options
import AnalysisRunner.Pool.Options
import AnalysisRunner.Settings.Document
import AnalysisRunner.Watch.Options

/-!
# What settings mean for the parts

The options that each part of the program takes from the settings.
-/

namespace AnalysisRunner
namespace Settings

/-- The options of the cache. -/
def cacheOptions (s : Settings) : CacheOptions where
  directory := s.cache.directory
  lifetime := .ofSeconds s.cache.lifetimeSeconds.toNat
  capacity := s.cache.capacity.toNat
  persistent := s.cache.persist

/-- The options of the pool; a timeout of zero is none. -/
def poolOptions (s : Settings) : PoolOptions where
  limit := max s.pool.concurrency.toNat 1
  stopOnError := s.pool.stopOnError
  timeout := if s.pool.timeoutMillis = 0 then none else some s.pool.timeoutMillis.toNat

/-- The options of the watcher. -/
def watcherOptions (s : Settings) : WatcherOptions where
  debounce := ⟨s.watch.debounceMillis.toNat⟩
  pollInterval := ⟨s.watch.pollMillis.toNat⟩
  polling := s.watch.polling
  extensions := s.watch.extensions
  ignored := s.watch.ignored

/-- The options of a watch session. -/
def sessionOptions (s : Settings) : SessionOptions where
  watcher := s.watcherOptions
  window := ⟨s.watch.windowMillis.toNat⟩
  batching := s.watch.batching

end Settings

/-! ## Options as JSON -/

/-- Cache options as JSON. -/
def CacheOptions.json (o : CacheOptions) : Json :=
  .object
    [("cache_directory", .string o.directory.shown),
     ("ttl_secs", .ofNat o.lifetime.seconds),
     ("max_entries", .ofNat o.capacity),
     ("use_file_system", .bool o.persistent)]

/-- Pool options as JSON. -/
def PoolOptions.json (o : PoolOptions) : Json :=
  .object
    [("max_concurrency", .ofNat o.limit),
     ("stop_on_error", .bool o.stopOnError),
     ("task_timeout_ms", .ofOption .ofNat o.timeout)]

/-- Watcher options as JSON. -/
def WatcherOptions.json (o : WatcherOptions) : Json :=
  .object
    [("debounce_ms", .ofNat o.debounce.millis),
     ("poll_interval_ms", .ofNat o.pollInterval.millis),
     ("use_polling", .bool o.polling),
     ("extensions", .ofTexts o.extensions),
     ("ignored", .ofTexts o.ignored)]

/-- The options that settings lead to. -/
def Settings.optionsJson (s : Settings) : Json :=
  .object
    [("cache", s.cacheOptions.json),
     ("scheduler", s.poolOptions.json),
     ("watcher", s.watcherOptions.json),
     ("aggregation_window_ms", .ofNat s.sessionOptions.window.millis),
     ("aggregate_changes", .bool s.sessionOptions.batching)]

end AnalysisRunner
