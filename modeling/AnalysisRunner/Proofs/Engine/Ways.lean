import AnalysisRunner.Proofs.Engine.Reports
import AnalysisRunner.Proofs.Pool.Started

/-!
# The ways an analysis can go

An analysis leaves two things open: in which order its tasks end, and how.  `Engine.Goes` says
that it can go one way, with these tasks joined, this report and this engine afterwards.  Every
round of the pool is a way to go, and the analysis on a timeline takes one of them
(`exists_goes_analyze`).

Whichever way it goes, only files that were read and that the cache did not know are given to
the analyzer (`Goes.pending_of_mem`, `pending_of_mem_calls`), and nothing of the disk matters but
what is read from the files asked for (`Goes.congr`, `analyze_congr`).
-/

namespace AnalysisRunner
namespace Engine

variable {e e' : Engine} {analyzer : Analyzer} {now : UInt64} {disk disk' : FileTree}
  {paths : List Path} {ran : List (Task (Path × String) Json × Outcome Json)} {r : Report}

/-! ## 1. Ways -/

/-- The engine after an analysis of which the tasks have come to these results. -/
def engineFor (e : Engine) (now : UInt64) (disk : FileTree) (paths : List Path)
    (results : Table String (Outcome Json)) : Engine :=
  ((e.plan now disk paths).2.absorb now (e.plan now disk paths).1 results).2

/-- Whether an analysis can go like this: these tasks are joined with these outcomes, in this
order, and this is the report and the engine afterwards. -/
def Goes (e : Engine) (analyzer : Analyzer) (now : UInt64) (disk : FileTree) (paths : List Path)
    (ran : List (Task (Path × String) Json × Outcome Json)) (r : Report) (e' : Engine) : Prop :=
  ∃ results, (e.poolFor analyzer now disk paths).Round ran results ∧
    r = e.reportFor now disk paths results ∧ e' = e.engineFor now disk paths results

/-- The analysis on its timeline: what it reports, leaves behind and gives to the analyzer comes
from one execution of its pool. -/
theorem analyze_eq (e : Engine) (analyzer : Analyzer) (now : UInt64) (disk : FileTree)
    (paths : List Path) :
    ∃ ran results t, (e.poolFor analyzer now disk paths).Round ran results ∧
      (Timeline.ofPool (e.poolFor analyzer now disk paths) 0).execute = .ok (results, t) ∧
      (e.analyze analyzer now disk paths).report = e.reportFor now disk paths results ∧
      (e.analyze analyzer now disk paths).engine = e.engineFor now disk paths results ∧
      ∀ p ∈ (e.analyze analyzer now disk paths).calls,
        ∃ task, .started task ∈ t.events ∧ task.input.1 = p := by
  obtain ⟨-, hbatch, hlimit, -, -⟩ := e.poolFor_spec analyzer now disk paths
  obtain ⟨ran, results, t, hround, -, hexecute⟩ := Timeline.execute_eq hbatch hlimit 0
  have hrun : ((e.plan now disk paths).2.runTasks analyzer (e.plan now disk paths).1).1 = results ∧
      ∀ p ∈ ((e.plan now disk paths).2.runTasks analyzer (e.plan now disk paths).1).2,
        ∃ task, .started task ∈ t.events ∧ task.input.1 = p := by
    obtain ⟨hpool, hrules⟩ := e.plan_frame now disk paths
    unfold runTasks
    dsimp only
    rw [hpool, hrules]
    rw [poolFor] at hexecute
    rw [hexecute]
    refine ⟨rfl, fun p hp => ?_⟩
    obtain ⟨event, hevent, hp⟩ := List.mem_filterMap.mp hp
    cases event with
    | started task => exact ⟨task, hevent, Option.some.inj hp⟩
    | ended task => cases hp
    | joined finished planned id => cases hp
  refine ⟨ran, results, t, hround, hexecute, ?_, ?_, hrun.2⟩
  · rw [← hrun.1]
    rfl
  · rw [← hrun.1]
    rfl

/-- **An analysis goes one of its ways.** -/
theorem exists_goes_analyze (e : Engine) (analyzer : Analyzer) (now : UInt64) (disk : FileTree)
    (paths : List Path) :
    ∃ ran, e.Goes analyzer now disk paths ran (e.analyze analyzer now disk paths).report
      (e.analyze analyzer now disk paths).engine := by
  obtain ⟨ran, results, t, hround, -, hreport, hengine, -⟩ := e.analyze_eq analyzer now disk paths
  exact ⟨ran, results, hround, hreport, hengine⟩

theorem Goes.isReportOn (h : e.Goes analyzer now disk paths ran r e') :
    IsReportOn e analyzer now disk ran paths r := by
  obtain ⟨results, hround, rfl, -⟩ := h
  exact isReportOn_reportFor hround

/-! ## 2. What is given to the analyzer -/

theorem mem_of_mem_plan {x : Path × Plan} (hx : x ∈ (e.plan now disk paths).1) : x.1 ∈ paths :=
  e.paths_plan now disk paths ▸ List.mem_map_of_mem hx

theorem pending_of_mem_queue {task : Task (Path × String) Json}
    (h : task ∈ (e.poolFor analyzer now disk paths).queue) :
    ∃ source, (task.input.1, Plan.pending source) ∈ (e.plan now disk paths).1 := by
  rw [(e.poolFor_spec analyzer now disk paths).1] at h
  obtain ⟨index, path, source, hplan, rfl⟩ := mem_tasks.mp h
  exact ⟨source, List.mem_of_getElem? hplan⟩

/-- A file that is given to the analyzer was planned so. -/
theorem Goes.pending_of_mem (h : e.Goes analyzer now disk paths ran r e')
    {j : Task (Path × String) Json × Outcome Json} (hj : j ∈ ran) :
    ∃ source, (j.1.input.1, Plan.pending source) ∈ (e.plan now disk paths).1 := by
  obtain ⟨results, hround, -, -⟩ := h
  exact pending_of_mem_queue (hround.mem_queue hj)

theorem pending_of_mem_calls {p : Path} (h : p ∈ (e.analyze analyzer now disk paths).calls) :
    ∃ source, (p, Plan.pending source) ∈ (e.plan now disk paths).1 := by
  obtain ⟨ran, results, t, -, hexecute, -, -, hcalls⟩ := e.analyze_eq analyzer now disk paths
  obtain ⟨task, hstarted, rfl⟩ := hcalls p h
  exact pending_of_mem_queue (Timeline.mem_queue_of_started hexecute hstarted)

/-! ## 3. What is read -/

/-- Plans depend on what is read from the files asked for, and on nothing else of the disk. -/
theorem plan_congr (e : Engine) (now : UInt64)
    (h : ∀ p ∈ paths, disk'.readText p = disk.readText p) :
    e.plan now disk' paths = e.plan now disk paths := by
  induction paths generalizing e with
  | nil => rfl
  | cons path rest ih =>
    have hfile : e.planFile now disk' path = e.planFile now disk path := by
      rw [planFile, planFile, h path (List.mem_cons_self ..)]
    rw [plan, plan, hfile, ih _ fun p hp => h p (List.mem_cons_of_mem _ hp)]

theorem Goes.congr (h : e.Goes analyzer now disk paths ran r e')
    (hread : ∀ p ∈ paths, disk'.readText p = disk.readText p) :
    e.Goes analyzer now disk' paths ran r e' := by
  obtain ⟨results, hround, hreport, hengine⟩ := h
  have hplan := e.plan_congr now hread
  refine ⟨results, ?_, ?_, ?_⟩
  · rw [poolFor, hplan]
    exact hround
  · rw [reportFor, hplan]
    exact hreport
  · rw [engineFor, hplan]
    exact hengine

theorem analyze_congr (e : Engine) (analyzer : Analyzer) (now : UInt64)
    (hread : ∀ p ∈ paths, disk'.readText p = disk.readText p) :
    (e.analyze analyzer now disk' paths).report = (e.analyze analyzer now disk paths).report ∧
      (e.analyze analyzer now disk' paths).engine = (e.analyze analyzer now disk paths).engine ∧
      (e.analyze analyzer now disk' paths).calls = (e.analyze analyzer now disk paths).calls := by
  unfold analyze
  rw [e.plan_congr now hread]
  exact ⟨rfl, rfl, rfl⟩

end Engine
end AnalysisRunner
