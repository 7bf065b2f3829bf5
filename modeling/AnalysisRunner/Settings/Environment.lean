import AnalysisRunner.Settings.Basic

/-!
# Settings from the environment

A variable of the environment overrides one setting.  A number that cannot be read
overrides nothing, while a flag is off unless it is spelled as on.
-/

namespace AnalysisRunner

/-- The variables that are set to a text. -/
abbrev Environment := String → Option String

namespace Environment

/-- The value of a digit. -/
def digit? (c : Char) : Option Nat :=
  if '0' ≤ c ∧ c ≤ '9' then some (c.toNat - 48) else none

/-- The value of decimal digits. -/
def digitsValue? (digits : List Char) : Option Nat :=
  digits.foldlM (fun n c => (digit? c).map fun d => n * 10 + d) 0

/-- The number that a text spells: decimal digits, which a plus sign may precede,
in the range of sixty-four bits. -/
def number? (text : String) : Option UInt64 :=
  let digits := match text.toList with
    | '+' :: rest => rest
    | cs => cs
  if digits.isEmpty then none
  else
    match digitsValue? digits with
    | some n => if n < Nat.pow 2 64 then some n.toUInt64 else none
    | none => none

/-- Whether a text spells a flag that is on. -/
def isOn (text : String) : Bool :=
  text.map Char.toLower = "true" || text = "1"

variable (env : Environment)

/-- A path from a variable, or another one. -/
def path (name : String) (base : Path) : Path :=
  ((env name).map Path.ofText).getD base

/-- A number from a variable, or another one. -/
def number (name : String) (base : UInt64) : UInt64 :=
  ((env name).bind number?).getD base

/-- A flag from a variable, or another one. -/
def flag (name : String) (base : Bool) : Bool :=
  ((env name).map isOn).getD base

/-- A text from a variable, or another one. -/
def text (name : String) (base : String) : String :=
  (env name).getD base

end Environment

/-- Settings overridden by the environment. -/
def Settings.overlay (env : Environment) (s : Settings) : Settings where
  cache :=
    { persist := env.flag "SOLLINT_CACHE_PERSIST" s.cache.persist
      directory := env.path "SOLLINT_CACHE_DIR" s.cache.directory
      lifetimeSeconds := env.number "SOLLINT_CACHE_TTL_SECS" s.cache.lifetimeSeconds
      capacity := env.number "SOLLINT_CACHE_MAX_ENTRIES" s.cache.capacity }
  pool :=
    { concurrency := env.number "SOLLINT_MAX_CONCURRENCY" s.pool.concurrency
      stopOnError := env.flag "SOLLINT_STOP_ON_ERROR" s.pool.stopOnError
      timeoutMillis := env.number "SOLLINT_TASK_TIMEOUT_MS" s.pool.timeoutMillis }
  watch :=
    { s.watch with
      debounceMillis := env.number "SOLLINT_WATCH_DEBOUNCE_MS" s.watch.debounceMillis
      windowMillis := env.number "SOLLINT_WATCH_AGGREGATION_MS" s.watch.windowMillis
      polling := env.flag "SOLLINT_WATCH_POLLING" s.watch.polling }
  log :=
    { level := env.text "RUST_LOG" s.log.level
      format := env.text "SOLLINT_LOG_FORMAT" s.log.format }

end AnalysisRunner
