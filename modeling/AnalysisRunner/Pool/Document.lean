import AnalysisRunner.Json.Basic
import AnalysisRunner.Pool.Basic

/-!
# Pools as JSON

What is told about a pool and the outcomes of its tasks, as they are shown and logged.
-/

namespace AnalysisRunner

/-- What is told about a pool; its mean time is not shown. -/
def Pool.json {ι ο : Type} (p : Pool ι ο) : Json :=
  Json.ofOption (fun s : PoolStats => .object
    [("total", .ofNat s.total),
     ("queued", .ofNat s.queued),
     ("running", .ofNat s.running),
     ("completed", .ofNat s.completed),
     ("failed", .ofNat s.failed)]) p.stats?

/-- The outcome of a task with a given name. -/
def Outcome.json (id : String) (o : Outcome Json) : Json :=
  .object
    [("task_id", .string id),
     ("success", .bool (!o.isFailure)),
     ("output", .ofOption (fun v => v) o.output?),
     ("error", .ofOption .string o.error?)]

/-- The outcomes of a batch by the names of the tasks. -/
def Outcome.tableJson (results : Table String (Outcome Json)) : Json :=
  .object (results.entries.map fun e => (e.1, Outcome.json e.1 e.2))

end AnalysisRunner
