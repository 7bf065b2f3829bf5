import AnalysisRunner.Engine.Basic
import AnalysisRunner.Proofs.Cache.Contents
import AnalysisRunner.Proofs.Pool.Schedule

/-!
# What an analysis finds

A report says of each file what its output is or what went wrong; whether the result was
known before is a matter of status.  What is due to a file depends on the file alone:
the message of the disk if it cannot be read, and otherwise the outcome of its own
analysis (`Engine.due`).

An analysis finds what is due to each file, in order, if the results that the cache knew are
right (`findings_analyze`).  For the files that are left, this rests on the pool: whatever
the order in which tasks end, every task gets its own outcome (`get?_runTasks`).  And every
result that is put into the cache is one of these outcomes (`holds_absorbFrom`).
-/

namespace AnalysisRunner

/-- What a report says about a file, its status apart. -/
abbrev Finding := Path × Option Json × Option String

def FileReport.finding (f : FileReport) : Finding :=
  (f.path, f.result.output?, f.result.error?)

def Report.findings (r : Report) : List Finding :=
  r.files.map FileReport.finding

namespace Engine

/-! ## 1. Tasks and their outcomes -/

variable {analyzer : Analyzer} {plans : List (Path × Plan)}

/-- The task for a pending file at a place of the plan. -/
def taskOf (analyzer : Analyzer) (rules : Json) (path : Path) (source : String) (index : Nat) :
    Task (Path × String) Json :=
  ⟨decimal index, (path, source), fun input => analyzer rules input.1 input.2⟩

theorem mem_tasks {rules : Json} {task : Task (Path × String) Json} :
    task ∈ tasks analyzer rules plans ↔
      ∃ index path source, plans[index]? = some (path, .pending source) ∧
        task = taskOf analyzer rules path source index := by
  unfold tasks
  rw [List.mem_filterMap]
  constructor
  · rintro ⟨⟨⟨path, plan⟩, index⟩, hmem, htask⟩
    have hget := List.mem_zipIdx_iff_getElem?.mp hmem
    cases plan with
    | pending source => exact ⟨index, path, source, hget, (Option.some.inj htask).symm⟩
    | unreadable fault => cases htask
    | known output => cases htask
  · rintro ⟨index, path, source, hget, rfl⟩
    exact ⟨((path, .pending source), index), List.mem_zipIdx_iff_getElem?.mpr hget, rfl⟩

/-- Every task of a plan has a name of its own. -/
theorem nodup_tasks (analyzer : Analyzer) (rules : Json) (plans : List (Path × Plan)) :
    ((tasks analyzer rules plans).map Task.id).Nodup := by
  have hplaces : plans.zipIdx.Pairwise fun a b => a.2 < b.2 := by
    rw [← List.pairwise_map, List.zipIdx_map_snd]
    exact List.pairwise_lt_range'
  unfold tasks
  rw [List.Nodup, List.pairwise_map, List.pairwise_filterMap]
  refine hplaces.imp ?_
  rintro ⟨⟨path, plan⟩, index⟩ ⟨⟨path', plan'⟩, index'⟩ hlt task htask task' htask'
  cases plan with
  | pending source =>
    cases plan' with
    | pending source' =>
      rw [← Option.some.inj htask, ← Option.some.inj htask']
      exact fun hsame => absurd (decimal_injective hsame) (Nat.ne_of_lt hlt)
    | unreadable fault => cases htask'
    | known output => cases htask'
  | unreadable fault => cases htask
  | known output => cases htask

/-- **Every pending file gets the outcome of its own task**, unless the pool stops at a
failure. -/
theorem get?_runTasks {e : Engine} (hstop : e.pool.stopOnError = false) {index : Nat}
    {path : Path} {source : String} (hget : plans[index]? = some (path, .pending source)) :
    (e.runTasks analyzer plans).1.get? (decimal index) =
      some ((taskOf analyzer e.rules path source index).outcome e.pool.timeout) := by
  obtain ⟨hqueue, hbatch, hoptions⟩ := Pool.addAll_new e.pool (tasks analyzer e.rules plans)
  obtain ⟨results, t, hexecute, hresults⟩ := Timeline.get?_execute hbatch
    (by rw [hoptions]; exact Nat.le_max_right _ _) (by rw [hoptions]; exact hstop)
    (by rw [hqueue]; exact nodup_tasks analyzer e.rules plans) 0
  unfold runTasks
  dsimp only
  rw [hexecute]
  have hmem : taskOf analyzer e.rules path source index ∈ tasks analyzer e.rules plans :=
    mem_tasks.mpr ⟨index, path, source, hget, rfl⟩
  have hfound := hresults _ (hqueue.symm ▸ hmem)
  rw [hoptions] at hfound
  exact hfound

/-! ## 2. Absorbing results -/

variable {results : Table String (Outcome Json)} {now : UInt64}

theorem remember_frame (e : Engine) (now : UInt64) (path : Path) (plan : Plan)
    (result : FileResult) : (e.remember now path plan result).pool = e.pool ∧
      (e.remember now path plan result).rules = e.rules := by
  unfold remember
  split <;> exact ⟨rfl, rfl⟩

/-- One line is reported for each planned file, and it depends on its plan and its task
alone. -/
theorem files_absorbFrom (results : Table String (Outcome Json)) (now : UInt64) (index : Nat)
    (e : Engine) (plans : List (Path × Plan)) :
    (absorbFrom results now index e plans).1 =
      (plans.zipIdx index).map fun x => ⟨x.1.1, conclude results x.1.2 x.2⟩ := by
  induction plans generalizing index e with
  | nil => rfl
  | cons x rest ih =>
    obtain ⟨path, plan⟩ := x
    rw [absorbFrom, List.zipIdx_cons, List.map_cons]
    dsimp only
    rw [ih]

theorem absorbFrom_frame (results : Table String (Outcome Json)) (now : UInt64) (index : Nat)
    (e : Engine) (plans : List (Path × Plan)) :
    (absorbFrom results now index e plans).2.pool = e.pool ∧
      (absorbFrom results now index e plans).2.rules = e.rules := by
  induction plans generalizing index e with
  | nil => exact ⟨rfl, rfl⟩
  | cons x rest ih =>
    obtain ⟨path, plan⟩ := x
    obtain ⟨hpool, hrules⟩ :=
      ih (index + 1) (e.remember now path plan (conclude results plan index))
    obtain ⟨hpool', hrules'⟩ := e.remember_frame now path plan (conclude results plan index)
    exact ⟨hpool.trans hpool', hrules.trans hrules'⟩

/-- What holds of all entries of the cache goes on to hold, if it holds of the new
outputs. -/
theorem holds_absorbFrom {P : Entry → Prop} {e : Engine} {index : Nat} (h : e.cache.Holds P)
    (hnew : ∀ i path source output, plans[i]? = some (path, .pending source) →
      results.get? (decimal (index + i)) = some (.output output) →
      P (Cache.entryOf now path source e.configHash output)) :
    (absorbFrom results now index e plans).2.cache.Holds P := by
  induction plans generalizing index e with
  | nil => exact h
  | cons x rest ih =>
    obtain ⟨path, plan⟩ := x
    have hconfig : (e.remember now path plan (conclude results plan index)).configHash =
        e.configHash := by
      rw [configHash, (e.remember_frame now path plan _).2]
      rfl
    rw [absorbFrom]
    refine ih ?_ ?_
    · unfold remember
      split
      · rename_i source output hresult
        refine h.set (hnew 0 path source output rfl ?_)
        -- only an output of the task makes the file analyzed
        unfold conclude at hresult
        dsimp only at hresult
        split at hresult
        · rename_i output' hget
          rw [← FileResult.analyzed.inj hresult]
          exact hget
        · cases hresult
        · cases hresult
      · exact h
    · intro i path' source output hget hresult
      rw [hconfig]
      refine hnew (i + 1) path' source output hget ?_
      rwa [Nat.add_assoc, Nat.add_comm 1 i] at hresult

/-! ## 3. What is due -/

/-- What is due to a file at a place of the list, by what the disk says and by the verdict
on its source; a file without a verdict was given up. -/
def due (verdict : Path → String → Option (Outcome Json)) (timeout : Option Nat)
    (disk : FileTree) (path : Path) (index : Nat) : Finding :=
  match disk.readText path with
  | .error fault => (path, none, some ("Failed to read file: " ++ fault.message))
  | .ok source =>
    let o := (verdict path source).getD (.timedOut (decimal index) (timeout.getD 0))
    (path, o.output?, o.error?)

/-- Whether a plan goes with what the disk says, and with the verdict if it claims to know
the result. -/
inductive IsRight (verdict : Path → String → Option (Outcome Json)) (disk : FileTree)
    (path : Path) : Plan → Prop
  | unreadable {fault : DiskFault} (read : disk.readText path = .error fault) :
      IsRight verdict disk path (.unreadable fault)
  | known {source : String} {output : Json} (read : disk.readText path = .ok source)
      (found : verdict path source = some (.output output)) :
      IsRight verdict disk path (.known output)
  | pending {source : String} (read : disk.readText path = .ok source) :
      IsRight verdict disk path (.pending source)

theorem planFile_frame (e : Engine) (now : UInt64) (disk : FileTree) (path : Path) :
    (e.planFile now disk path).2.pool = e.pool ∧ (e.planFile now disk path).2.rules = e.rules := by
  unfold planFile
  split
  · exact ⟨rfl, rfl⟩
  · split <;> exact ⟨rfl, rfl⟩

theorem plan_frame (e : Engine) (now : UInt64) (disk : FileTree) (paths : List Path) :
    (e.plan now disk paths).2.pool = e.pool ∧ (e.plan now disk paths).2.rules = e.rules := by
  induction paths generalizing e with
  | nil => exact ⟨rfl, rfl⟩
  | cons path rest ih =>
    obtain ⟨hpool, hrules⟩ := ih (e.planFile now disk path).2
    obtain ⟨hpool', hrules'⟩ := e.planFile_frame now disk path
    exact ⟨hpool.trans hpool', hrules.trans hrules'⟩

/-- There is a plan for every file, in order. -/
theorem paths_plan (e : Engine) (now : UInt64) (disk : FileTree) (paths : List Path) :
    (e.plan now disk paths).1.map Prod.fst = paths := by
  induction paths generalizing e with
  | nil => rfl
  | cons path rest ih =>
    rw [plan, List.map_cons]
    dsimp only
    rw [ih]

/-- A right plan and the outcome of its own task lead to what is due. -/
theorem finding_conclude {verdict : Path → String → Option (Outcome Json)} {disk : FileTree}
    {path : Path} {plan : Plan} (h : IsRight verdict disk path plan) {timeout : Option Nat}
    {index : Nat} (hresults : ∀ source, plan = .pending source →
      results.get? (decimal index) =
        some ((verdict path source).getD (.timedOut (decimal index) (timeout.getD 0)))) :
    (⟨path, conclude results plan index⟩ : FileReport).finding =
      due verdict timeout disk path index := by
  unfold due
  cases h with
  | unreadable read =>
    rw [read]
    rfl
  | known read found =>
    rw [read]
    dsimp only
    rw [found]
    rfl
  | pending read =>
    rw [read]
    unfold conclude
    dsimp only
    rw [hresults _ rfl]
    cases (verdict path _).getD (.timedOut (decimal index) (timeout.getD 0)) <;> rfl

/-- **An analysis finds what is due to each file, in order**, if what the cache knew is
right. -/
theorem findings_analyze {e : Engine} (hstop : e.pool.stopOnError = false) {disk : FileTree}
    {paths : List Path} {verdict : Path → String → Option (Outcome Json)}
    (hverdict : ∀ path ∈ paths, ∀ source,
      (analyzer e.rules path source).verdict e.pool.timeout = verdict path source)
    (hright : ∀ x ∈ (e.plan now disk paths).1, IsRight verdict disk x.1 x.2) :
    (e.analyze analyzer now disk paths).report.findings =
      paths.zipIdx.map fun x => due verdict e.pool.timeout disk x.1 x.2 := by
  obtain ⟨hpool, hrules⟩ := e.plan_frame now disk paths
  have hpaths := e.paths_plan now disk paths
  unfold analyze absorb Report.findings
  dsimp only
  rw [files_absorbFrom, List.map_map]
  generalize (e.plan now disk paths).2 = e' at hpool hrules
  generalize hplans : (e.plan now disk paths).1 = plans at hpaths hright
  have hzip : paths.zipIdx = plans.zipIdx.map fun x => (x.1.1, x.2) := by
    rw [← hpaths, List.zipIdx_map]
    rfl
  rw [hzip, List.map_map]
  refine List.map_congr_left ?_
  rintro ⟨⟨path, plan⟩, index⟩ hmem
  have hget : plans[index]? = some (path, plan) := List.mem_zipIdx_iff_getElem?.mp hmem
  have hx : (path, plan) ∈ plans := List.mem_of_getElem? hget
  refine finding_conclude (hright _ hx) ?_
  rintro source rfl
  have hpath : path ∈ paths := hpaths ▸ List.mem_map_of_mem hx
  rw [get?_runTasks (hpool ▸ hstop) hget, hpool, hrules, ← hverdict path hpath source]
  rfl

end Engine
end AnalysisRunner
