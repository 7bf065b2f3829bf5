import AnalysisRunner.Path.Basic
import AnalysisRunner.Time.Duration

/-!
# How a cache is set up
-/

namespace AnalysisRunner

/-- The directory, limits and kind of a cache. -/
structure CacheOptions where
  directory : Path
  lifetime : Duration
  capacity : Nat
  /-- Whether the cache is saved to its directory. -/
  persistent : Bool
  deriving DecidableEq, Repr

/-- A cache in memory, for a day and ten thousand results. -/
def CacheOptions.standard : CacheOptions where
  directory := .ofText ".sollint-cache"
  lifetime := .ofSeconds (24 * 60 * 60)
  capacity := 10000
  persistent := false

end AnalysisRunner
