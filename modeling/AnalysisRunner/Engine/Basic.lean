import AnalysisRunner.Cache.Persist
import AnalysisRunner.Engine.Report
import AnalysisRunner.Pool.Timeline
import AnalysisRunner.Watch.Change

/-!
# The engine

The engine analyzes files.  It reads each file and asks the cache first; what the
cache does not know is run in a pool, and new results go into the cache.

An analysis has three parts.  `plan` reads the files and asks the cache.  The pool
runs the tasks of the plan; how, and in which order, is left to it.  `absorb` turns
the plan and whatever outcomes there are into a report and takes the new results
over.  The first and the last part do not depend on how the pool works.
-/

namespace AnalysisRunner

/-- What is done with the source of a file, under a rule configuration. -/
abbrev Analyzer := Json → Path → String → Work Json

/-- An engine. -/
structure Engine where
  cache : Cache
  pool : PoolOptions
  rules : Json

/-- What is planned for a file. -/
inductive Plan where
  /-- The file cannot be read. -/
  | unreadable (fault : DiskFault)
  /-- The cache knows the result. -/
  | known (output : Json)
  /-- The source is to be analyzed. -/
  | pending (source : String)

namespace Engine

/-- An engine with an empty cache. -/
def new (cache : CacheOptions) (pool : PoolOptions) (rules : Json) : Engine :=
  ⟨.new cache, pool, rules⟩

/-- The fingerprint of the rule configuration. -/
def configHash (e : Engine) : String :=
  Fingerprint.ofConfig e.rules

/-- Changes the rule configuration; results under the old one no longer fit. -/
def setRules (e : Engine) (rules : Json) : Engine :=
  { e with rules }

/-- Restores the cache from its directory, and says how many results were taken over. -/
def load (e : Engine) (now : UInt64) (disk : FileTree) : Except ArchiveFault Nat × Engine :=
  let (count, cache) := e.cache.load now disk
  (count, { e with cache })

/-! ## 1. Planning -/

/-- The plan for one file. -/
def planFile (e : Engine) (now : UInt64) (disk : FileTree) (path : Path) : Plan × Engine :=
  match disk.readText path with
  | .error fault => (.unreadable fault, e)
  | .ok source =>
    match e.cache.get now path source e.configHash with
    | (some output, cache) => (.known output, { e with cache })
    | (none, cache) => (.pending source, { e with cache })

/-- The plans for files, in order. -/
def plan (e : Engine) (now : UInt64) (disk : FileTree) : List Path → List (Path × Plan) × Engine
  | [] => ([], e)
  | path :: rest =>
    let first := e.planFile now disk path
    let others := first.2.plan now disk rest
    ((path, first.1) :: others.1, others.2)

/-- The tasks of a plan: each pending file, named by its place in the plan. -/
def tasks (analyzer : Analyzer) (rules : Json) (plans : List (Path × Plan)) :
    List (Task (Path × String) Json) :=
  plans.zipIdx.filterMap fun ((path, plan), index) =>
    match plan with
    | .pending source =>
      some ⟨decimal index, (path, source), fun input => analyzer rules input.1 input.2⟩
    | _ => none

/-! ## 2. Results -/

/-- What becomes of a planned file, given the outcomes of the tasks. -/
def conclude (results : Table String (Outcome Json)) (plan : Plan) (index : Nat) : FileResult :=
  match plan with
  | .unreadable fault => .failed ("Failed to read file: " ++ fault.message)
  | .known output => .cached output
  | .pending _ =>
    match results.get? (decimal index) with
    | some (.output output) => .analyzed output
    | some (.failure error) => .failed error
    | none => .failed "Analysis was not run"

/-- Takes a new result over. -/
def remember (e : Engine) (now : UInt64) (path : Path) (plan : Plan) (result : FileResult) :
    Engine :=
  match plan, result with
  | .pending source, .analyzed output =>
    { e with cache := e.cache.set now path source e.configHash output }
  | _, _ => e

/-- The reports on planned files from an index on, and the engine that knows the new
results. -/
def absorbFrom (results : Table String (Outcome Json)) (now : UInt64) :
    Nat → Engine → List (Path × Plan) → List FileReport × Engine
  | _, e, [] => ([], e)
  | index, e, (path, plan) :: rest =>
    let result := conclude results plan index
    let others := absorbFrom results now (index + 1) (e.remember now path plan result) rest
    (⟨path, result⟩ :: others.1, others.2)

/-- The report on planned files, and the engine that knows the new results. -/
def absorb (e : Engine) (now : UInt64) (plans : List (Path × Plan))
    (results : Table String (Outcome Json)) : Report × Engine :=
  let (files, e) := absorbFrom results now 0 e plans
  (⟨files⟩, e)

/-- Saves the cache of an engine, if it can be saved. -/
def persist (e : Engine) (now : UInt64) (disk : FileTree) : FileTree :=
  (e.cache.save now disk).1

/-! ## 3. Analysis -/

/-- An analysis that was done. -/
structure Analysis where
  engine : Engine
  disk : FileTree
  report : Report
  /-- The files that were given to the analyzer, in the order of the calls. -/
  calls : List Path

/-- Runs the tasks of a plan. -/
def runTasks (e : Engine) (analyzer : Analyzer) (plans : List (Path × Plan)) :
    Table String (Outcome Json) × List Path :=
  let pool : Pool (Path × String) Json := (Pool.new e.pool).addAll (tasks analyzer e.rules plans)
  match (Timeline.ofPool pool 0).execute with
  | .error _ => (.empty, [])
  | .ok (results, t) =>
    (results, t.events.filterMap fun
      | .started task => some task.input.1
      | _ => none)

/-- Analyzes files.  The cache is saved if there are new results. -/
def analyze (e : Engine) (analyzer : Analyzer) (now : UInt64) (disk : FileTree)
    (paths : List Path) : Analysis :=
  let (plans, e) := e.plan now disk paths
  let (results, calls) := e.runTasks analyzer plans
  let (report, e) := e.absorb now plans results
  { engine := e
    disk := if 0 < report.analyzed then e.persist now disk else disk
    report
    calls }

/-! ## 4. Changes -/

/-- Takes one change into account: a file that is gone is forgotten, any other is to
be analyzed, once. -/
def takeChange (state : List Path × Engine) (c : Change) : List Path × Engine :=
  let (targets, e) := state
  match c.kind with
  | .remove =>
    (targets.filter fun p => !p.same c.path, { e with cache := e.cache.invalidate c.path })
  | _ => (if targets.any fun p => p.same c.path then targets else targets ++ [c.path], e)

/-- Analyzes the files that a list of changes is about.  The cache is saved if there
are new results or files were forgotten. -/
def handleChanges (e : Engine) (analyzer : Analyzer) (now : UInt64) (disk : FileTree)
    (changes : List Change) : Analysis :=
  let (targets, e) := changes.foldl takeChange ([], e)
  let a := e.analyze analyzer now disk targets
  let forgot := changes.any fun c => c.kind = .remove
  if forgot && a.report.analyzed = 0 then { a with disk := a.engine.persist now a.disk } else a

end Engine
end AnalysisRunner
