import AnalysisRunner.Settings.Basic

/-!
# Which settings are accepted

Settings are accepted if they break none of six rules.  A report names the first
broken one.
-/

namespace AnalysisRunner

/-- A broken rule. -/
inductive RuleFault where
  | noCapacity
  | noLifetime
  | noConcurrency
  | noExtensions
  | unknownLevel (level : String)
  | unknownFormat (format : String)
  deriving DecidableEq, Repr

/-- What is said about a broken rule. -/
def RuleFault.message : RuleFault → String
  | .noCapacity => "cache.max_entries must be greater than 0"
  | .noLifetime => "cache.ttl_secs must be greater than 0"
  | .noConcurrency => "scheduler.max_concurrency must be greater than 0"
  | .noExtensions => "watch.extensions must list at least one extension"
  | .unknownLevel level =>
    "Invalid log level: " ++ level ++ ". Must be one of: trace, debug, info, warn, error"
  | .unknownFormat format =>
    "Invalid log format: " ++ format ++ ". Must be one of: pretty, json, compact"

namespace LogSettings

/-- The levels that can be named alone. -/
def levels : List String :=
  ["trace", "debug", "info", "warn", "error"]

/-- The formats of a log. -/
def formats : List String :=
  ["pretty", "json", "compact"]

/-- Whether a level is a list of directives, which is not looked into. -/
def isDirective (level : String) : Bool :=
  level.toList.contains '=' || level.toList.contains ','

end LogSettings

/-- The first rule that settings break. -/
def Settings.fault? (s : Settings) : Option RuleFault :=
  if s.cache.capacity = 0 then some .noCapacity
  else if s.cache.lifetimeSeconds = 0 then some .noLifetime
  else if s.pool.concurrency = 0 then some .noConcurrency
  else if s.watch.extensions = [] then some .noExtensions
  else if ¬ LogSettings.isDirective s.log.level ∧ s.log.level ∉ LogSettings.levels then
    some (.unknownLevel s.log.level)
  else if s.log.format ∉ LogSettings.formats then some (.unknownFormat s.log.format)
  else none

end AnalysisRunner
