import AnalysisRunner.Proofs.Cache.Mirrored
import AnalysisRunner.Proofs.Engine.Findings

/-!
# Every file gets its own report

An analysis reports on each file that was asked for, once and in order, whatever the disk, the
cache, the analyzer and the pool do.  This needs no assumption on what the cache knows, and
failures may count.

What a report says comes from one of three places: the disk, the cache as it was before the
analysis, or a task of the pool.  `Settled` lists the ways and ties each to the file: its path is
read, its source is looked up, and the task is the one that is named by its place and has its
path and source for input.  A file may also be left out, but only if failures count and one has
been joined.

Two things could go wrong on the way.  Files are planned one after the other, and each lookup may
drop an entry; but it drops only what is too old, so it changes no later answer
(`Cache.Sheds.get_fst`).  And outcomes are found again by the name of a task; but names are
indices, and every result of a round was joined under its name (`settled_conclude`).
-/

namespace AnalysisRunner

/-- A cache that has lost nothing but what is too old gives the same answers. -/
theorem Cache.Sheds.get_fst {now : UInt64} {c c' : Cache} (h : Sheds now c c') (file : Path)
    (content configHash : String) :
    (c'.get now file content configHash).1 = (c.get now file content configHash).1 := by
  apply Option.ext
  intro answer
  rw [get_eq_some_iff, get_eq_some_iff, h.options]
  constructor
  · rintro ⟨entry, hentry, hcontent, hconfig, hresult, hyoung⟩
    exact ⟨entry, h.kept _ _ hentry, hcontent, hconfig, hresult, hyoung⟩
  · rintro ⟨entry, hentry, hcontent, hconfig, hresult, hyoung⟩
    have hfresh : entry.isExpired now c.options.lifetime = false :=
      decide_eq_false (Nat.not_le.mpr hyoung)
    exact ⟨entry, h.young _ _ hentry hfresh, hcontent, hconfig, hresult, hyoung⟩

/-- Every line of a report is counted once. -/
theorem Report.sum_counts (r : Report) : r.cached + r.analyzed + r.failed = r.files.length := by
  obtain ⟨files⟩ := r
  unfold cached analyzed failed
  dsimp only
  induction files with
  | nil => rfl
  | cons f files ih =>
    rw [List.countP_cons, List.countP_cons, List.countP_cons, List.length_cons, ← ih]
    cases f.result <;>
      simp only [FileResult.isCached, FileResult.isAnalyzed, FileResult.isFailed, if_true,
        Bool.false_eq_true, if_false] <;> omega

namespace Engine

variable {e e' : Engine} {analyzer : Analyzer} {now : UInt64} {disk : FileTree} {path : Path}

/-! ## 1. Plans -/

/-- What is planned for a file, by what the disk says of it and what the cache knows of its
source. -/
inductive Planned (e : Engine) (now : UInt64) (disk : FileTree) (path : Path) : Plan → Prop
  | unreadable {fault : DiskFault} (read : disk.readText path = .error fault) :
      Planned e now disk path (.unreadable fault)
  | known {source : String} {output : Json} (read : disk.readText path = .ok source)
      (found : (e.cache.get now path source e.configHash).1 = some output) :
      Planned e now disk path (.known output)
  | pending {source : String} (read : disk.readText path = .ok source)
      (missed : (e.cache.get now path source e.configHash).1 = none) :
      Planned e now disk path (.pending source)

theorem planned_planFile (e : Engine) (now : UInt64) (disk : FileTree) (path : Path) :
    Planned e now disk path (e.planFile now disk path).1 := by
  unfold planFile
  cases hread : disk.readText path with
  | error fault => exact .unreadable hread
  | ok source =>
    dsimp only
    cases hget : e.cache.get now path source e.configHash with
    | mk answer cache =>
      cases answer with
      | some output => exact .known hread (by rw [hget])
      | none => exact .pending hread (by rw [hget])

theorem Planned.of_sheds {plan : Plan} (h : Planned e' now disk path plan)
    (hsheds : Cache.Sheds now e.cache e'.cache) (hrules : e'.rules = e.rules) :
    Planned e now disk path plan := by
  have hconfig : e'.configHash = e.configHash := by rw [configHash, hrules, configHash]
  cases h with
  | unreadable read => exact .unreadable read
  | known read found => exact .known read (by rw [← hsheds.get_fst, ← hconfig, found])
  | pending read missed => exact .pending read (by rw [← hsheds.get_fst, ← hconfig, missed])

theorem sheds_planFile (e : Engine) (now : UInt64) (disk : FileTree) (path : Path) :
    Cache.Sheds now e.cache (e.planFile now disk path).2.cache := by
  unfold planFile
  cases disk.readText path with
  | error fault => exact .refl now e.cache
  | ok source =>
    dsimp only
    have hsheds := e.cache.sheds_get now path source e.configHash
    cases hget : e.cache.get now path source e.configHash with
    | mk answer cache =>
      rw [hget] at hsheds
      cases answer <;> exact hsheds

/-- Planning drops nothing but what is too old. -/
theorem sheds_plan (e : Engine) (now : UInt64) (disk : FileTree) (paths : List Path) :
    Cache.Sheds now e.cache (e.plan now disk paths).2.cache := by
  induction paths generalizing e with
  | nil => exact .refl now e.cache
  | cons path rest ih => exact (e.sheds_planFile now disk path).trans (ih _)

/-- **Every file is planned as if it were the only one.** -/
theorem planned_plan (e : Engine) (now : UInt64) (disk : FileTree) (paths : List Path) :
    ∀ x ∈ (e.plan now disk paths).1, Planned e now disk x.1 x.2 := by
  induction paths generalizing e with
  | nil =>
    intro x hx
    cases hx
  | cons path rest ih =>
    intro x hx
    rcases List.mem_cons.mp hx with rfl | hx
    · exact e.planned_planFile now disk path
    · exact (ih _ x hx).of_sheds (e.sheds_planFile now disk path)
        (e.planFile_frame now disk path).2

/-! ## 2. What a report says -/

/-- What becomes of a file at a place of the list, by what the disk says, what the cache knows and
what the tasks that ran came to. -/
inductive Settled (e : Engine) (analyzer : Analyzer) (now : UInt64) (disk : FileTree)
    (ran : List (Task (Path × String) Json × Outcome Json)) (path : Path) (index : Nat) :
    FileResult → Prop
  /-- The file cannot be read. -/
  | unreadable {fault : DiskFault} (read : disk.readText path = .error fault) :
      Settled e analyzer now disk ran path index
        (.failed ("Failed to read file: " ++ fault.message))
  /-- The cache knows the result. -/
  | known {source : String} {output : Json} (read : disk.readText path = .ok source)
      (found : (e.cache.get now path source e.configHash).1 = some output) :
      Settled e analyzer now disk ran path index (.cached output)
  /-- The cache does not know the result, and the task of the file ran well. -/
  | analyzed {source : String} {output : Json} (read : disk.readText path = .ok source)
      (missed : (e.cache.get now path source e.configHash).1 = none)
      (joined : (taskOf analyzer e.rules path source index, .output output) ∈ ran) :
      Settled e analyzer now disk ran path index (.analyzed output)
  /-- The cache does not know the result, and the task of the file failed. -/
  | failed {source error : String} (read : disk.readText path = .ok source)
      (missed : (e.cache.get now path source e.configHash).1 = none)
      (joined : (taskOf analyzer e.rules path source index, .failure error) ∈ ran) :
      Settled e analyzer now disk ran path index (.failed error)
  /-- The cache does not know the result, and a failure kept the task of the file from
  running. -/
  | skipped {source : String} (read : disk.readText path = .ok source)
      (missed : (e.cache.get now path source e.configHash).1 = none)
      (left : ∀ o, (taskOf analyzer e.rules path source index, o) ∉ ran)
      (stop : e.pool.stopOnError = true) (failure : ∃ j ∈ ran, j.2.isFailure = true) :
      Settled e analyzer now disk ran path index (.failed "Analysis was not run")

/-- Whether a report is a report on these files, in order, in which each line belongs to its own
file. -/
structure IsReportOn (e : Engine) (analyzer : Analyzer) (now : UInt64) (disk : FileTree)
    (ran : List (Task (Path × String) Json × Outcome Json)) (paths : List Path) (r : Report) :
    Prop where
  paths_eq : r.files.map FileReport.path = paths
  counts : r.cached + r.analyzed + r.failed = paths.length
  output : ∀ f ∈ r.files, (f.result.output?.isSome = true ∧ f.result.error? = none) ↔
    (f.result.status = "cached" ∨ f.result.status = "analyzed")
  error : ∀ f ∈ r.files, (f.result.error?.isSome = true ∧ f.result.output? = none) ↔
    f.result.status = "failed"
  settled : ∀ index f, r.files[index]? = some f →
    Settled e analyzer now disk ran f.path index f.result

/-- The pool of an analysis, with the tasks for the files that are left to analyze. -/
def poolFor (e : Engine) (analyzer : Analyzer) (now : UInt64) (disk : FileTree)
    (paths : List Path) : Pool (Path × String) Json :=
  (Pool.new e.pool).addAll (tasks analyzer e.rules (e.plan now disk paths).1)

/-- The report of an analysis of which the tasks have come to these results. -/
def reportFor (e : Engine) (now : UInt64) (disk : FileTree) (paths : List Path)
    (results : Table String (Outcome Json)) : Report :=
  ((e.plan now disk paths).2.absorb now (e.plan now disk paths).1 results).1

section

variable {plans : List (Path × Plan)} {p : Pool (Path × String) Json}
  {ran : List (Task (Path × String) Json × Outcome Json)} {results : Table String (Outcome Json)}

/-- A result under the index of a pending file is what the task of that file was joined
with. -/
theorem get?_round_iff (h : p.Round ran results) (hqueue : p.queue = tasks analyzer e.rules plans)
    {index : Nat} {source : String} (hplan : plans[index]? = some (path, .pending source))
    {o : Outcome Json} :
    results.get? (decimal index) = some o ↔
      (taskOf analyzer e.rules path source index, o) ∈ ran := by
  rw [h.get?_eq_some_iff (hqueue ▸ nodup_tasks analyzer e.rules plans)]
  constructor
  · rintro ⟨j, hj, hid, rfl⟩
    obtain ⟨i, path', source', hplan', htask⟩ := mem_tasks.mp (hqueue ▸ h.mem_queue hj)
    rw [htask] at hid
    obtain rfl := decimal_injective hid
    obtain ⟨rfl, hsource⟩ := Prod.mk.inj (Option.some.inj (hplan'.symm.trans hplan))
    obtain rfl := Plan.pending.inj hsource
    rw [← htask]
    exact hj
  · intro hj
    exact ⟨_, hj, rfl, rfl⟩

/-- **A planned file is settled by its own task.** -/
theorem settled_conclude (h : p.Round ran results)
    (hqueue : p.queue = tasks analyzer e.rules plans)
    (hstop : p.options.stopOnError = e.pool.stopOnError) {index : Nat} {plan : Plan}
    (hplan : plans[index]? = some (path, plan)) (hplanned : Planned e now disk path plan) :
    Settled e analyzer now disk ran path index (conclude results plan index) := by
  unfold conclude
  cases hplanned with
  | unreadable read => exact .unreadable read
  | known read found => exact .known read found
  | pending read missed =>
    rename_i source
    have hget := fun o => get?_round_iff h hqueue hplan (o := o)
    dsimp only
    cases hresult : results.get? (decimal index) with
    | some o =>
      have hjoined := (hget o).mp hresult
      cases o with
      | output output => exact .analyzed read missed hjoined
      | failure error => exact .failed read missed hjoined
    | none =>
      have hleft : ∀ o, (taskOf analyzer e.rules path source index, o) ∉ ran := by
        intro o ho
        rw [(hget o).mpr ho] at hresult
        cases hresult
      -- the task is in the queue and did not run, so something was left there
      obtain ⟨front, rest, hsplit, hfront, hrest⟩ := h.queue
      have htask : taskOf analyzer e.rules path source index ∈ front ++ rest := by
        rw [← hsplit, hqueue]
        exact mem_tasks.mpr ⟨index, path, source, hplan, rfl⟩
      have hnonempty : rest ≠ [] := by
        rintro rfl
        rw [List.append_nil] at htask
        obtain ⟨j, hj, hsame⟩ := List.mem_map.mp (hfront.mem_iff.mpr htask)
        refine hleft j.2 ?_
        rw [← hsame]
        exact hj
      obtain ⟨hstops, hfailure⟩ := hrest hnonempty
      exact .skipped read missed hleft (hstop ▸ hstops) hfailure

end

/-- The pool of an analysis: the tasks are in the queue, and nothing runs. -/
theorem poolFor_spec (e : Engine) (analyzer : Analyzer) (now : UInt64) (disk : FileTree)
    (paths : List Path) :
    (e.poolFor analyzer now disk paths).queue =
        tasks analyzer e.rules (e.plan now disk paths).1 ∧
      (e.poolFor analyzer now disk paths).batch = none ∧
      1 ≤ (e.poolFor analyzer now disk paths).options.limit ∧
      (e.poolFor analyzer now disk paths).options.stopOnError = e.pool.stopOnError ∧
      (e.poolFor analyzer now disk paths).options.timeout = e.pool.timeout := by
  obtain ⟨hqueue, hbatch, hoptions⟩ :=
    Pool.addAll_new e.pool (tasks analyzer e.rules (e.plan now disk paths).1)
  refine ⟨hqueue, hbatch, ?_, ?_, ?_⟩
  · rw [poolFor, hoptions]
    exact Nat.le_max_right _ _
  · rw [poolFor, hoptions]
  · rw [poolFor, hoptions]

/-- **However the tasks of an analysis run, its report is a report on its files.** -/
theorem isReportOn_reportFor {paths : List Path}
    {ran : List (Task (Path × String) Json × Outcome Json)}
    {results : Table String (Outcome Json)}
    (h : (e.poolFor analyzer now disk paths).Round ran results) :
    IsReportOn e analyzer now disk ran paths (e.reportFor now disk paths results) := by
  obtain ⟨hqueue, -, -, hstop, -⟩ := e.poolFor_spec analyzer now disk paths
  have hfiles : (e.reportFor now disk paths results).files =
      (e.plan now disk paths).1.zipIdx.map fun x => ⟨x.1.1, conclude results x.1.2 x.2⟩ :=
    files_absorbFrom results now 0 _ _
  have hpaths : (e.reportFor now disk paths results).files.map FileReport.path = paths := by
    rw [hfiles, List.map_map]
    calc (e.plan now disk paths).1.zipIdx.map (Prod.fst ∘ Prod.fst)
        = (e.plan now disk paths).1.map Prod.fst := by rw [← List.map_map, List.zipIdx_map_fst]
      _ = paths := e.paths_plan now disk paths
  refine ⟨hpaths, ?_, ?_, ?_, ?_⟩
  · have hlength := congrArg List.length hpaths
    rw [List.length_map] at hlength
    rw [Report.sum_counts, hlength]
  · intro f _
    cases f.result <;> simp [FileResult.output?, FileResult.error?, FileResult.status]
  · intro f _
    cases f.result <;> simp [FileResult.output?, FileResult.error?, FileResult.status]
  · intro index f hf
    rw [hfiles, List.getElem?_map, List.getElem?_zipIdx, Option.map_map, Nat.zero_add] at hf
    obtain ⟨⟨path, plan⟩, hplan, rfl⟩ := Option.map_eq_some_iff.mp hf
    exact settled_conclude h hqueue hstop hplan
      (e.planned_plan now disk paths _ (List.mem_of_getElem? hplan))

/-! ## 3. Reports -/

/-- **Every file gets one report of its own, in order.**  For every engine, whatever its cache
holds and its options are, every analyzer, every disk and all paths, repeated or not:

* However many tasks run at a time, in whatever order they end and with whatever outcomes, the
  report has one line for each path, in order; the counts add up to the number of paths; a line
  has an output and no error exactly if the file is cached or analyzed, and an error and no
  output exactly if it failed; and what the line at an index says comes from reading that
  path, from the lookup of its source, or from the task with that index, path and source.
* However far the tasks have come, they come to an end.
* The analysis itself reports so, and its tasks end as the analyzer does, or are given up. -/
theorem every_file_gets_its_report (e : Engine) (analyzer : Analyzer) (now : UInt64)
    (disk : FileTree) (paths : List Path) :
    (∀ ran results, (e.poolFor analyzer now disk paths).Round ran results →
      IsReportOn e analyzer now disk ran paths (e.reportFor now disk paths results)) ∧
    (e.poolFor analyzer now disk paths).ComesToEnd ∧
    ∃ ran results t, (e.poolFor analyzer now disk paths).Round ran results ∧
      (∀ j ∈ ran, j.2 = j.1.outcome e.pool.timeout) ∧
      (Timeline.ofPool (e.poolFor analyzer now disk paths) 0).execute = .ok (results, t) ∧
      (e.analyze analyzer now disk paths).report = e.reportFor now disk paths results ∧
      IsReportOn e analyzer now disk ran paths (e.analyze analyzer now disk paths).report := by
  obtain ⟨-, hbatch, hlimit, -, htimeout⟩ := e.poolFor_spec analyzer now disk paths
  refine ⟨fun ran results h => isReportOn_reportFor h, Pool.comesToEnd hbatch hlimit, ?_⟩
  obtain ⟨ran, results, t, hround, hown, hexecute⟩ := Timeline.execute_eq hbatch hlimit 0
  have hresults : ((e.plan now disk paths).2.runTasks analyzer (e.plan now disk paths).1).1 =
      results := by
    obtain ⟨hpool, hrules⟩ := e.plan_frame now disk paths
    unfold runTasks
    dsimp only
    rw [hpool, hrules]
    rw [poolFor] at hexecute
    rw [hexecute]
  have hreport : (e.analyze analyzer now disk paths).report =
      e.reportFor now disk paths results := by
    rw [← hresults]
    rfl
  refine ⟨ran, results, t, hround, htimeout ▸ hown, hexecute, hreport, ?_⟩
  rw [hreport]
  exact isReportOn_reportFor hround

end Engine
end AnalysisRunner
