import AnalysisRunner.Cache.Fingerprint
import AnalysisRunner.Time.Duration

/-!
# Cached results

One result with what it was computed from: the key of the file, the fingerprints
of its content and of the configuration, and the time of insertion.
-/

namespace AnalysisRunner

/-- A cached result. -/
structure Entry where
  key : String
  contentHash : String
  configHash : String
  result : Json
  created : UInt64

namespace Entry

/-- The age of an entry, zero if it was made after `now`. -/
def age (e : Entry) (now : UInt64) : Nat :=
  now.toNat - e.created.toNat

/-- Whether an entry is too old to be served. -/
def isExpired (e : Entry) (now : UInt64) (lifetime : Duration) : Bool :=
  lifetime.ticks ≤ e.age now

/-- Whether an entry was computed from the given content and configuration. -/
def isFor (e : Entry) (contentHash configHash : String) : Bool :=
  e.contentHash = contentHash && e.configHash = configHash

end Entry
end AnalysisRunner
