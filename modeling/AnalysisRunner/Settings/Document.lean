import AnalysisRunner.Json.Basic
import AnalysisRunner.Settings.Basic
import AnalysisRunner.Text.Decimal
import AnalysisRunner.Toml.Document

/-!
# Settings in documents

Settings are read from any kind of document that holds records, and what a document
leaves out is taken from given settings.  They are written as JSON to be shown, and
as TOML to make a settings file.
-/

namespace AnalysisRunner

open Readable

/-! ## 1. Reading -/

/-- The cache group of a document. -/
def CacheSettings.ofDocument? [Readable ν] (base : CacheSettings) (v : ν) :
    Option CacheSettings := do
  match ← fields? ["use_file_system", "directory", "ttl_secs", "max_entries"] v with
  | [persist, directory, lifetime, capacity] =>
    pure
      { persist := ← optional bool? base.persist persist
        directory := ← optional (fun v => (text? v).map Path.ofText) base.directory directory
        lifetimeSeconds := ← optional nat? base.lifetimeSeconds lifetime
        capacity := ← optional nat? base.capacity capacity }
  | _ => none

/-- The pool group of a document. -/
def PoolSettings.ofDocument? [Readable ν] (base : PoolSettings) (v : ν) :
    Option PoolSettings := do
  match ← fields? ["max_concurrency", "stop_on_error", "task_timeout_ms"] v with
  | [concurrency, stop, timeout] =>
    pure
      { concurrency := ← optional nat? base.concurrency concurrency
        stopOnError := ← optional bool? base.stopOnError stop
        timeoutMillis := ← optional nat? base.timeoutMillis timeout }
  | _ => none

/-- The watch group of a document. -/
def WatchSettings.ofDocument? [Readable ν] (base : WatchSettings) (v : ν) :
    Option WatchSettings := do
  match ← fields? ["debounce_ms", "poll_interval_ms", "use_polling", "aggregation_window_ms",
      "aggregate_changes", "extensions", "ignored"] v with
  | [debounce, poll, polling, window, batching, extensions, ignored] =>
    pure
      { debounceMillis := ← optional nat? base.debounceMillis debounce
        pollMillis := ← optional nat? base.pollMillis poll
        polling := ← optional bool? base.polling polling
        windowMillis := ← optional nat? base.windowMillis window
        batching := ← optional bool? base.batching batching
        extensions := ← optional texts? base.extensions extensions
        ignored := ← optional texts? base.ignored ignored }
  | _ => none

/-- The log group of a document. -/
def LogSettings.ofDocument? [Readable ν] (base : LogSettings) (v : ν) : Option LogSettings := do
  match ← fields? ["level", "format"] v with
  | [level, format] =>
    pure
      { level := ← optional text? base.level level
        format := ← optional text? base.format format }
  | _ => none

/-- The settings of a document; what it leaves out is taken from `base`. -/
def Settings.ofDocument? [Readable ν] (base : Settings) (v : ν) : Option Settings := do
  match ← fields? ["cache", "scheduler", "watch", "logging"] v with
  | [cache, pool, watch, log] =>
    pure
      { cache := ← optional (CacheSettings.ofDocument? base.cache) base.cache cache
        pool := ← optional (PoolSettings.ofDocument? base.pool) base.pool pool
        watch := ← optional (WatchSettings.ofDocument? base.watch) base.watch watch
        log := ← optional (LogSettings.ofDocument? base.log) base.log log }
  | _ => none

/-! ## 2. Writing -/

/-- A list of texts as JSON. -/
def Json.ofTexts (texts : List String) : Json :=
  .array (texts.map .string)

/-- Settings as JSON. -/
def Settings.json (s : Settings) : Json :=
  .object
    [("cache", .object
      [("use_file_system", .bool s.cache.persist),
       ("directory", .string s.cache.directory.shown),
       ("ttl_secs", .number (.nat s.cache.lifetimeSeconds)),
       ("max_entries", .number (.nat s.cache.capacity))]),
     ("scheduler", .object
      [("max_concurrency", .number (.nat s.pool.concurrency)),
       ("stop_on_error", .bool s.pool.stopOnError),
       ("task_timeout_ms", .number (.nat s.pool.timeoutMillis))]),
     ("watch", .object
      [("debounce_ms", .number (.nat s.watch.debounceMillis)),
       ("poll_interval_ms", .number (.nat s.watch.pollMillis)),
       ("use_polling", .bool s.watch.polling),
       ("aggregation_window_ms", .number (.nat s.watch.windowMillis)),
       ("aggregate_changes", .bool s.watch.batching),
       ("extensions", .ofTexts s.watch.extensions),
       ("ignored", .ofTexts s.watch.ignored)]),
     ("logging", .object
      [("level", .string s.log.level),
       ("format", .string s.log.format)])]

namespace Toml

/-- A character inside a basic string. -/
def quotedChar (c : Char) : String :=
  if c = '"' then "\\\""
  else if c = '\\' then "\\\\"
  else if isTextChar c then c.toString
  else "\\u00" ++ String.ofList [hexDigit (c.toNat / 16), hexDigit (c.toNat % 16)]

/-- A text as a basic string. -/
def quoted (text : String) : String :=
  "\"" ++ String.join (text.toList.map quotedChar) ++ "\""

/-- A list of texts: on one line if there are fewer than two, else each on a line of
its own. -/
def quotedList (texts : List String) : String :=
  match texts with
  | [] => "[]"
  | [text] => "[" ++ quoted text ++ "]"
  | texts => "[\n" ++ String.join (texts.map fun t => "    " ++ quoted t ++ ",\n") ++ "]"

/-- A line that gives a key its value. -/
def assignment (key value : String) : String :=
  key ++ " = " ++ value ++ "\n"

/-- A truth value. -/
def truth (b : Bool) : String :=
  if b then "true" else "false"

end Toml

open Toml in
/-- Settings as the text of a settings file. -/
def Settings.document (s : Settings) : String :=
  let number (n : UInt64) : String := decimal n.toNat
  "[cache]\n" ++
  assignment "use_file_system" (truth s.cache.persist) ++
  assignment "directory" (quoted s.cache.directory.shown) ++
  assignment "ttl_secs" (number s.cache.lifetimeSeconds) ++
  assignment "max_entries" (number s.cache.capacity) ++
  "\n[scheduler]\n" ++
  assignment "max_concurrency" (number s.pool.concurrency) ++
  assignment "stop_on_error" (truth s.pool.stopOnError) ++
  assignment "task_timeout_ms" (number s.pool.timeoutMillis) ++
  "\n[watch]\n" ++
  assignment "debounce_ms" (number s.watch.debounceMillis) ++
  assignment "poll_interval_ms" (number s.watch.pollMillis) ++
  assignment "use_polling" (truth s.watch.polling) ++
  assignment "aggregation_window_ms" (number s.watch.windowMillis) ++
  assignment "aggregate_changes" (truth s.watch.batching) ++
  assignment "extensions" (quotedList s.watch.extensions) ++
  assignment "ignored" (quotedList s.watch.ignored) ++
  "\n[logging]\n" ++
  assignment "level" (quoted s.log.level) ++
  assignment "format" (quoted s.log.format)

end AnalysisRunner
