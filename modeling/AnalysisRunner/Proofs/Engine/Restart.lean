import AnalysisRunner.Proofs.Cache.Capacity
import AnalysisRunner.Proofs.Clock
import AnalysisRunner.Proofs.Engine.Transparency

/-!
# Starting again

An engine with a persistent cache can be dropped at any time between two calls.  Another one
with the same options that loads the directory holds exactly the results that the first one
held, those that are too old apart; what was forgotten since does not come back
(`Session.restart_holds_what_is_not_too_old`).  Too old is what has reached the lifetime in force,
which is cut to sixty-four bits.

This needs an argument because not everything is saved.  A call saves if it has analyzed a
file or was told to forget one (`Call.disk_run`).  Otherwise it has put nothing in and has
taken nothing out but what is too old (`Call.run_induction`), so the cache mirrors the
stored entries as before.  If it saves, the cache mirrors what was just saved.
-/

namespace AnalysisRunner
namespace Engine

/-! ## 1. The cache through an analysis -/

variable {now : UInt64} {results : Table String (Outcome Json)}

/-- Only a file that is reported as analyzed changes the cache. -/
theorem absorbFrom_induction {Q : Cache → Prop} {files : List FileReport} {index : Nat} {e : Engine}
    {plans : List (Path × Plan)} (h : Q e.cache)
    (hfiles : ∀ f ∈ (absorbFrom results now index e plans).1, f ∈ files)
    (hset : ∀ c path content configHash output, ⟨path, .analyzed output⟩ ∈ files → Q c →
      Q (c.set now path content configHash output)) :
    Q (absorbFrom results now index e plans).2.cache := by
  induction plans generalizing index e with
  | nil => exact h
  | cons x rest ih =>
    obtain ⟨path, plan⟩ := x
    rw [absorbFrom] at hfiles ⊢
    refine ih ?_ fun f hf => hfiles f (List.mem_cons_of_mem _ hf)
    have hfirst := hfiles _ (List.mem_cons_self ..)
    generalize conclude results plan index = result at hfirst
    unfold remember
    split
    · exact hset _ _ _ _ _ hfirst h
    · exact h

theorem disk_analyze (e : Engine) (analyzer : Analyzer) (now : UInt64) (disk : FileTree)
    (paths : List Path) :
    (e.analyze analyzer now disk paths).disk =
      if 0 < (e.analyze analyzer now disk paths).report.analyzed then
        ((e.analyze analyzer now disk paths).engine.cache.save now disk).1
      else disk := rfl

/-! ## 2. The cache and the disk through a call -/

namespace Call

/-- The files that a call is told to forget. -/
def forgotten : Call → List Path
  | .analyze _ => []
  | .changes cs => (cs.filter fun c => c.kind = .remove).map Change.path

variable {e : Engine} {analyzer : Analyzer} {disk : FileTree} {c : Call}

/-- The engine that has taken changes into account has forgotten what is gone, and nothing
else has happened to its cache. -/
theorem cache_foldl_takeChange (cs : List Change) (targets : List Path) (e : Engine) :
    (cs.foldl takeChange (targets, e)).2.cache =
      ((cs.filter fun c => c.kind = .remove).map Change.path).foldl Cache.invalidate e.cache := by
  induction cs generalizing targets e with
  | nil => rfl
  | cons c cs ih =>
    rw [List.foldl_cons, ih]
    unfold takeChange
    cases hkind : c.kind <;> simp [hkind]

theorem cache_prepared (c : Call) (e : Engine) :
    (c.prepared e).cache = c.forgotten.foldl Cache.invalidate e.cache := by
  cases c with
  | analyze paths => rfl
  | changes cs => exact cache_foldl_takeChange cs [] e

/-- What forgetting one file keeps holds when an analysis starts. -/
theorem prepared_induction {Q : Cache → Prop} (h : Q e.cache)
    (hforget : ∀ c path, Q c → Q (c.invalidate path)) : Q (c.prepared e).cache := by
  rw [cache_prepared]
  generalize c.forgotten = paths
  generalize e.cache = cache at h
  induction paths generalizing cache with
  | nil => exact h
  | cons path rest ih => exact ih _ (hforget _ _ h)

/-- A forgotten file is no longer known when the analysis starts. -/
theorem get?_prepared_of_mem {k : String} (h : k ∈ c.forgotten.map Path.normal) :
    (c.prepared e).cache.entries.get? k = none := by
  rw [cache_prepared]
  generalize c.forgotten = paths at h
  generalize e.cache = cache
  induction paths generalizing cache with
  | nil => cases h
  | cons path rest ih =>
    rw [List.foldl_cons]
    by_cases hrest : k ∈ rest.map Path.normal
    · exact ih hrest _
    · have hk : k = path.normal := by
        simpa [hrest] using h
      have hnone : ∀ (paths : List Path) (c : Cache), c.entries.get? k = none →
          (paths.foldl Cache.invalidate c).entries.get? k = none := by
        intro paths
        induction paths with
        | nil => exact fun c hc => hc
        | cons p ps ih =>
          intro c hc
          refine ih _ ?_
          rw [Cache.get?_invalidate, hc, ite_self]
      refine hnone rest _ ?_
      rw [Cache.get?_invalidate, if_pos hk]

/-- **What a call does to the cache**: it forgets, drops what is too old, and puts in what is
reported as analyzed. -/
theorem run_induction {Q : Cache → Prop} (h : Q (c.prepared e).cache)
    (hsheds : ∀ c c', Cache.Sheds now c c' → Q c → Q c')
    (hset : ∀ cache path content configHash output,
      ⟨path, .analyzed output⟩ ∈ (c.run e analyzer now disk).report.files → Q cache →
        Q (cache.set now path content configHash output)) :
    Q (c.run e analyzer now disk).engine.cache := by
  obtain ⟨hengine, hreport⟩ := c.run_eq e analyzer now disk
  rw [hreport] at hset
  rw [hengine]
  exact absorbFrom_induction (hsheds _ _ (sheds_plan _ now disk _) h) (fun f hf => hf) hset

/-- Whether a call has something to save. -/
def saves (c : Call) (e : Engine) (analyzer : Analyzer) (now : UInt64) (disk : FileTree) : Bool :=
  0 < (c.run e analyzer now disk).report.analyzed || !c.forgotten.isEmpty

/-- **A call saves if it has something to save**, and otherwise leaves the disk alone. -/
theorem disk_run (c : Call) (e : Engine) (analyzer : Analyzer) (now : UInt64) (disk : FileTree) :
    (c.run e analyzer now disk).disk =
      if c.saves e analyzer now disk then
        ((c.run e analyzer now disk).engine.cache.save now disk).1
      else disk := by
  cases c with
  | analyze paths =>
    simp only [saves, forgotten, List.isEmpty_nil, Bool.not_true, Bool.or_false, decide_eq_true_eq]
    rfl
  | changes cs =>
    have hforgot : (!(forgotten (.changes cs)).isEmpty) = cs.any fun c => c.kind = .remove := by
      rw [Bool.eq_iff_iff]
      simp [forgotten]
    obtain ⟨hengine, hreport⟩ := run_eq (.changes cs) e analyzer now disk
    rw [saves, hforgot, hreport, hengine]
    have hdisk := disk_analyze (prepared (.changes cs) e) analyzer now disk
      (targets (.changes cs) e)
    unfold run handleChanges
    dsimp only
    split
    · rename_i hsave
      rw [Bool.and_eq_true, decide_eq_true_eq] at hsave
      obtain ⟨hany, hzero⟩ := hsave
      rw [hany, Bool.or_true, if_pos rfl]
      have hsame : (Engine.analyze (prepared (.changes cs) e) analyzer now disk
          (targets (.changes cs) e)).disk = disk :=
        hdisk.trans (if_neg (Nat.not_lt.mpr (Nat.le_of_eq hzero)))
      exact congrArg (persist _ now) hsame
    · rename_i hsave
      refine hdisk.trans ?_
      split
      · rename_i hpos
        rw [decide_eq_true hpos, Bool.true_or, if_pos rfl]
      · rename_i hpos
        have hany : cs.any (fun c => c.kind = .remove) = false := by
          rw [Bool.and_eq_true, decide_eq_true_eq] at hsave
          exact Bool.eq_false_iff.mpr fun hany => hsave ⟨hany, Nat.eq_zero_of_not_pos hpos⟩
        rw [decide_eq_false hpos, hany, Bool.or_false, if_neg Bool.false_ne_true]

end Call

/-! ## 3. Sessions of an engine that saves -/

namespace Session

/-- The keys of forgotten files after a call: those of files that were not analyzed. -/
def goneAfter (s : Session) (analyzer : Analyzer) (c : Call) (gone : Set String) : Set String :=
  {k | (k ∈ gone ∨ k ∈ c.forgotten.map Path.normal) ∧
    ∀ f ∈ (c.run s.engine analyzer s.now s.disk).report.files,
      f.result.isAnalyzed = true → f.path.normal ≠ k}

/-- The sessions of an engine that saves to its directory, with the keys of the files that were
forgotten and not analyzed since.

The engine starts on a directory to which nothing was saved, or a cache was, and loads it.
Every save succeeds, and outputs read back.  Between calls the clock may go on, and the files
may be edited, but not the directory. -/
inductive Kept (options : CacheOptions) : Session → Set String → Prop
  | start {pool : PoolOptions} {rules : Json} {disk : FileTree} {now : UInt64}
      (hpersistent : options.persistent = true) (htree : disk.IsTree)
      (hplain : Archive.IsPlain options.directory disk)
      (hsaved : Archive.IsSaved options.directory disk) :
      Kept options ⟨((Engine.new options pool rules).load now disk).2, disk, now⟩ ∅
  | call {s : Session} {gone : Set String} (h : Kept options s gone)
      {analyzer : Analyzer} {c : Call}
      (hsave : c.saves s.engine analyzer s.now s.disk = true →
        ((c.run s.engine analyzer s.now s.disk).engine.cache.save s.now s.disk).2 = .ok ())
      (houtputs : ∀ path output,
        ⟨path, .analyzed output⟩ ∈ (c.run s.engine analyzer s.now s.disk).report.files →
          output.ReadsBackWithin Entry.maxResultDepth) :
      Kept options (s.after analyzer c) (s.goneAfter analyzer c gone)
  | setRules {s : Session} {gone : Set String} (h : Kept options s gone) (rules : Json) :
      Kept options { s with engine := s.engine.setRules rules } gone
  | load {s : Session} {gone : Set String} (h : Kept options s gone) :
      Kept options { s with engine := (s.engine.load s.now s.disk).2 } gone
  | edit {s : Session} {gone : Set String} (h : Kept options s gone) {disk : FileTree}
      (htree : disk.IsTree) (hplain : Archive.IsPlain options.directory disk)
      (hsame : disk.read (Archive.entriesFile options.directory) =
        s.disk.read (Archive.entriesFile options.directory)) :
      Kept options { s with disk } gone
  | clock {s : Session} {gone : Set String} (h : Kept options s gone) {now : UInt64}
      (hle : s.now ≤ now) : Kept options { s with now } gone

/-- What holds at all times: the directory stores entries, the cache mirrors them, and none of
them is of a file that is gone. -/
structure InStep (options : CacheOptions) (s : Session) (gone : Set String) (es : List Entry) :
    Prop where
  persistent : options.persistent = true
  sameOptions : s.engine.cache.options = (Cache.new options).options
  isTree : s.disk.IsTree
  isPlain : Archive.IsPlain options.directory s.disk
  stores : Archive.Stores options.directory s.disk es
  readsBack : ∀ e ∈ es, e.ReadsBack
  mirrors : s.engine.cache.Mirrors s.now es
  gone : ∀ e ∈ es, e.key ∉ gone

variable {options : CacheOptions} {s : Session} {gone : Set String} {es : List Entry}

theorem InStep.load (h : s.InStep options gone es) :
    InStep options { s with engine := (s.engine.load s.now s.disk).2 } gone es := by
  have hnew : s.engine.cache.options = (Cache.new options).options := h.sameOptions
  obtain ⟨n, c', hload, hoptions, hmirrors⟩ := Cache.mirrors_load h.mirrors.holds h.mirrors.nodup
    (by rw [hnew]; exact Nat.le_max_right _ _) (by rw [hnew]; exact h.persistent)
    (by rw [hnew]; exact h.stores) s.now
  have hengine : (s.engine.load s.now s.disk).2 = { s.engine with cache := c' } := by
    rw [Engine.load, hload]
  exact { h with
    sameOptions := by rw [hengine]; exact hoptions.trans hnew
    mirrors := by rw [hengine]; exact hmirrors }

/-- What a cache of an engine keeps through every call. -/
structure Stands (options : CacheOptions) (c : Cache) : Prop where
  sameOptions : c.options = (Cache.new options).options
  fits : c.Fits
  holds : c.Holds Entry.ReadsBack

theorem Stands.invalidate {c : Cache} (h : Stands options c) (path : Path) :
    Stands options (c.invalidate path) :=
  ⟨h.sameOptions, h.fits.invalidate path, h.holds.invalidate path⟩

theorem Stands.of_sheds {c c' : Cache} {now : UInt64} (h : Stands options c)
    (hsheds : Cache.Sheds now c c') : Stands options c' :=
  ⟨hsheds.options.trans h.sameOptions,
    h.fits.of_kept hsheds.options hsheds.size_le hsheds.kept,
    fun k e he => h.holds k e (hsheds.kept k e he)⟩

theorem Stands.set {c : Cache} (h : Stands options c) {now : UInt64} {path : Path}
    {content configHash : String} {output : Json}
    (houtput : output.ReadsBackWithin Entry.maxResultDepth) :
    Stands options (c.set now path content configHash output) :=
  ⟨h.sameOptions, h.fits.set now path content configHash output, h.holds.set houtput⟩

theorem InStep.stands (h : s.InStep options gone es) : Stands options s.engine.cache where
  sameOptions := h.sameOptions
  fits := {
    filed := fun k e he => ⟨(h.mirrors.holds k e he).1, trivial⟩
    room := by
      rw [h.sameOptions]
      exact Nat.le_max_right _ _
    size_le := h.mirrors.fits }
  holds := fun k e he =>
    ⟨(h.mirrors.holds k e he).1, h.readsBack e (h.mirrors.holds k e he).2⟩

section Call

variable {analyzer : Analyzer} {c : Call} (h : s.InStep options gone es)
  (houtputs : ∀ path output,
    ⟨path, .analyzed output⟩ ∈ (c.run s.engine analyzer s.now s.disk).report.files →
      output.ReadsBackWithin Entry.maxResultDepth)

include h

theorem InStep.get?_run_of_gone {k : String} (hk : k ∈ s.goneAfter analyzer c gone) :
    (c.run s.engine analyzer s.now s.disk).engine.cache.entries.get? k = none := by
  obtain ⟨hk, hnot⟩ := hk
  refine Call.run_induction (Q := fun cache => cache.entries.get? k = none) ?_ ?_ ?_
  · rcases hk with hk | hk
    · refine Call.prepared_induction (Q := fun cache => cache.entries.get? k = none) ?_ ?_
      · refine Option.eq_none_iff_forall_ne_some.mpr fun e he => ?_
        obtain ⟨rfl, hmem⟩ := h.mirrors.holds k e he
        exact h.gone e hmem hk
      · intro cache path hc
        rw [Cache.get?_invalidate, hc, ite_self]
    · exact Call.get?_prepared_of_mem hk
  · intro cache cache' hsheds hc
    refine Option.eq_none_iff_forall_ne_some.mpr fun e he => ?_
    rw [hsheds.kept k e he] at hc
    cases hc
  · intro cache path content configHash output hmem hc
    rw [Cache.get?_set, if_neg (Ne.symm (hnot _ hmem rfl)), hc, ite_self]

include houtputs

theorem InStep.stands_run : Stands options (c.run s.engine analyzer s.now s.disk).engine.cache := by
  refine Call.run_induction (Call.prepared_induction h.stands fun _ path hc => hc.invalidate path)
    (fun _ _ hsheds hc => hc.of_sheds hsheds) ?_
  intro cache path content configHash output hmem hc
  exact hc.set (houtputs path output hmem)

/-- A call that saves leaves the directory in step with the cache that was saved. -/
theorem InStep.call_of_saves (hsaves : c.saves s.engine analyzer s.now s.disk = true)
    (hsave : ((c.run s.engine analyzer s.now s.disk).engine.cache.save s.now s.disk).2 = .ok ()) :
    (s.after analyzer c).InStep options (s.goneAfter analyzer c gone)
      (c.run s.engine analyzer s.now s.disk).engine.cache.sortedEntries := by
  have hstands := h.stands_run houtputs
  have hsaved := Cache.saved_of_save (by rw [hstands.sameOptions]; exact h.persistent) h.isTree
    (by rw [hstands.sameOptions]; exact h.isPlain) hsave
  rw [hstands.sameOptions] at hsaved
  have hdisk : (s.after analyzer c).disk = _ := Call.disk_run c s.engine analyzer s.now s.disk
  rw [hsaves, if_pos rfl] at hdisk
  have hreads : ∀ e ∈ (c.run s.engine analyzer s.now s.disk).engine.cache.sortedEntries,
      e.ReadsBack := fun e he => hstands.holds.of_mem_values (Cache.mem_sortedEntries.mp he)
  refine ⟨h.persistent, hstands.sameOptions, hdisk ▸ hsaved.isTree, hdisk ▸ hsaved.isPlain,
    hdisk ▸ Archive.stores_of_read hsaved.read hreads, hreads,
    Cache.mirrors_sortedEntries hstands.holds hstands.fits.size_le s.now, ?_⟩
  intro e he hkey
  have hget := hstands.holds.get?_eq_some_iff.mpr ⟨Cache.mem_sortedEntries.mp he, rfl⟩
  rw [h.get?_run_of_gone hkey] at hget
  cases hget

/-- A call that does not save has dropped nothing but what is too old. -/
theorem InStep.call_of_not_saves (hsaves : c.saves s.engine analyzer s.now s.disk = false) :
    (s.after analyzer c).InStep options (s.goneAfter analyzer c gone) es := by
  have hdisk : (s.after analyzer c).disk = _ := Call.disk_run c s.engine analyzer s.now s.disk
  rw [hsaves, if_neg Bool.false_ne_true] at hdisk
  rw [Call.saves, Bool.or_eq_false_iff, decide_eq_false_iff_not, Bool.not_eq_false',
    List.isEmpty_iff] at hsaves
  obtain ⟨hnone, hforgotten⟩ := hsaves
  have hsheds : Cache.Sheds s.now s.engine.cache
      (c.run s.engine analyzer s.now s.disk).engine.cache := by
    refine Call.run_induction ?_ (fun _ _ hsheds hc => hc.trans hsheds) ?_
    · rw [Call.cache_prepared, hforgotten]
      exact .refl s.now _
    · intro cache path content configHash output hmem
      exact absurd (List.countP_pos_iff.mpr ⟨_, hmem, rfl⟩) hnone
  refine ⟨h.persistent, (h.stands_run houtputs).sameOptions, hdisk ▸ h.isTree, hdisk ▸ h.isPlain,
    hdisk ▸ h.stores, h.readsBack, h.mirrors.of_sheds hsheds, ?_⟩
  rintro e he ⟨hkey, -⟩
  rw [hforgotten] at hkey
  exact h.gone e he (hkey.resolve_right List.not_mem_nil)

end Call

/-- **The directory and the cache are in step at all times.** -/
theorem exists_inStep_of_kept (h : Kept options s gone) : ∃ es, s.InStep options gone es := by
  induction h with
  | @start pool rules disk now hpersistent htree hplain hsaved =>
    obtain ⟨es, hstores, hreads, hnodup⟩ : ∃ es, Archive.Stores options.directory disk es ∧
        (∀ e ∈ es, e.ReadsBack) ∧ (es.map Entry.key).Nodup := by
      rcases hsaved with hread | ⟨saver, hholds, hread⟩
      · exact ⟨[], Archive.stores_of_notFound hread, by simp, List.nodup_nil⟩
      · have hreads : ∀ e ∈ saver.sortedEntries, e.ReadsBack := fun e he =>
          hholds.of_mem_values (Cache.mem_sortedEntries.mp he)
        have hperm : saver.sortedEntries.Perm saver.entries.values := List.mergeSort_perm _ _
        exact ⟨_, Archive.stores_of_read hread hreads, hreads,
          (hperm.map Entry.key).nodup_iff.mpr hholds.nodup_values⟩
    obtain ⟨n, c', hload, hoptions, hmirrors⟩ := Cache.mirrors_load (c := .new options)
      (Cache.holds_new options _) hnodup (Nat.le_max_right _ _) hpersistent hstores now
    have hengine : ((Engine.new options pool rules).load now disk).2 = ⟨c', pool, rules⟩ := by
      rw [Engine.load, show (Engine.new options pool rules).cache = .new options from rfl, hload]
      rfl
    refine ⟨es, ⟨hpersistent, ?_, htree, hplain, hstores, hreads, ?_, fun _ _ hgone => hgone⟩⟩
    · rw [hengine]
      exact hoptions
    · rw [hengine]
      exact hmirrors
  | @call s gone _ analyzer c hsave houtputs ih =>
    obtain ⟨es, hes⟩ := ih
    cases hsaves : c.saves s.engine analyzer s.now s.disk with
    | true => exact ⟨_, hes.call_of_saves houtputs hsaves (hsave hsaves)⟩
    | false => exact ⟨es, hes.call_of_not_saves houtputs hsaves⟩
  | setRules _ rules ih =>
    obtain ⟨es, hes⟩ := ih
    exact ⟨es, { hes with }⟩
  | load _ ih =>
    obtain ⟨es, hes⟩ := ih
    exact ⟨es, hes.load⟩
  | edit _ htree hplain hsame ih =>
    obtain ⟨es, hes⟩ := ih
    exact ⟨es, { hes with isTree := htree, isPlain := hplain, stores := hes.stores.congr hsame }⟩
  | clock _ hle ih =>
    obtain ⟨es, hes⟩ := ih
    exact ⟨es, { hes with mirrors := hes.mirrors.mono (UInt64.le_iff_toNat_le.mp hle) }⟩

/-- **Starting again loses nothing and brings nothing back.**  At any time a new engine with the
same options loads what is stored, and then it holds exactly the entries of the old one that
are younger than the lifetime in force.  These are the ones that are younger than the lifetime
the engines were given exactly if the old one holds no entry of an age in between the two.  So it
knows nothing about files that were forgotten and not analyzed since. -/
theorem restart_holds_what_is_not_too_old (h : Kept options s gone) :
    ∃ n fresh, (Engine.new options s.engine.pool s.engine.rules).load s.now s.disk =
        (.ok n, fresh) ∧
      (∀ k e, fresh.cache.entries.get? k = some e ↔
        s.engine.cache.entries.get? k = some e ∧ e.age s.now < options.lifetime.ticks) ∧
      ((∀ k e, fresh.cache.entries.get? k = some e ↔
          s.engine.cache.entries.get? k = some e ∧ e.age s.now < options.lifetime.millis) ↔
        ¬ ∃ k e, s.engine.cache.entries.get? k = some e ∧
          options.lifetime.ticks ≤ e.age s.now ∧ e.age s.now < options.lifetime.millis) ∧
      ∀ k ∈ gone, fresh.cache.entries.get? k = none := by
  obtain ⟨es, hes⟩ := exists_inStep_of_kept h
  obtain ⟨n, c', hload, hget⟩ :=
    hes.mirrors.get?_load_new hes.sameOptions hes.persistent hes.stores
  simp only [Entry.isExpired_eq_false_iff] at hget
  refine ⟨n, ⟨c', s.engine.pool, s.engine.rules⟩, ?_, hget, ?_, ?_⟩
  · rw [Engine.load, show (Engine.new options s.engine.pool s.engine.rules).cache = .new options
      from rfl, hload]
    rfl
  · have hle := options.lifetime.ticks_le_millis
    constructor
    · rintro hasked ⟨k, e, he, hold, hyoung⟩
      have hheld := (hget k e).mp ((hasked k e).mpr ⟨he, hyoung⟩)
      exact Nat.not_le.mpr hheld.2 hold
    · intro hnone k e
      refine (hget k e).trans (and_congr_right fun he => ?_)
      refine ⟨fun hage => Nat.lt_of_lt_of_le hage hle, fun hage => ?_⟩
      exact Nat.lt_of_not_le fun hold => hnone ⟨k, e, he, hold, hage⟩
  · intro k hk
    refine Option.eq_none_iff_forall_ne_some.mpr fun e he => ?_
    obtain ⟨rfl, hmem⟩ := hes.mirrors.holds k e ((hget k e).mp he).1
    exact hes.gone e hmem hk

/-! ## 4. A file that is forgotten

The engine that has loaded the result for `/a` is told that the file is gone. -/

theorem isTree_savedDisk : savedDisk.IsTree := by
  refine ⟨?_, rfl⟩
  intro loc name n hn
  rw [Table.get?_eq_some_iff] at hn
  have hmem : loc ++ [name] ∈ savedDisk.nodes.keys := List.mem_map_of_mem hn
  have hkeys : savedDisk.nodes.keys = [[[99], Bytes.ofText "entries.json"], [[99]], [[97]]] := rfl
  rw [hkeys] at hmem
  have hloc : loc = [[99]] ∨ loc = [] := by
    have hdrop := List.mem_map_of_mem (f := List.dropLast) hmem
    rw [List.dropLast_concat] at hdrop
    simpa using hdrop
  rcases hloc with rfl | rfl <;> rfl

theorem wayTo_savedDisk : savedDisk.wayTo (.ofText "/c") = .ok (FileTree.maxLinks, [[99]]) := by
  have hhops : (Path.ofText "/c").hops = [.down [99]] := by
    decide
  have hdir : savedDisk.nodes.get? [[99]] = some .directory := rfl
  rw [FileTree.wayTo, hhops, show savedDisk.start (.ofText "/c") = [] from rfl, FileTree.descend,
    if_neg (by decide)]
  simp only [List.nil_append, hdir]
  rw [FileTree.descend]

theorem free_savedDisk :
    ∀ name ∈ Archive.fileNames, savedDisk.passage ([[99]] ++ [name]) = none := by
  simp only [Archive.fileNames, List.map_cons, List.map_nil, List.mem_cons,
    List.not_mem_nil, or_false]
  rintro name (rfl | rfl | rfl | rfl) <;> rfl

theorem readsBack_sampleEntry : sampleEntry.ReadsBack := by
  show Json.ofWritten? Entry.maxResultDepth (Json.string "x").written = some (.string "x")
  rw [Json.written, Json.ofWritten?, Written.glyphText?_map_char]
  rfl

theorem kept_loader : Kept sampleCache loader ∅ := by
  refine .start rfl isTree_savedDisk
    (Archive.isPlain_of_free (by decide) wayTo_savedDisk free_savedDisk)
    (.inr ⟨(Cache.new sampleCache).put sampleEntry, ?_, ?_⟩)
  · intro k e he
    rw [Cache.get?_put] at he
    split at he
    · rename_i hk
      rw [← Option.some.inj he]
      exact ⟨hk.symm, readsBack_sampleEntry⟩
    · cases he
  · have hsorted : ((Cache.new sampleCache).put sampleEntry).sortedEntries = [sampleEntry] :=
      List.mergeSort_singleton _
    rw [hsorted]
    exact read_savedDisk

/-- The call that says so. -/
def forgetting : Call :=
  .changes [⟨.ofText "/a", .remove, ⟨0, 0⟩⟩]

theorem files_forgetting : (forgetting.run loader.engine echo 5 savedDisk).report.files = [] := rfl

theorem kept_forgetting :
    Kept sampleCache (loader.after echo forgetting) (loader.goneAfter echo forgetting ∅) := by
  have houtputs : ∀ path output, ⟨path, .analyzed output⟩ ∈
      (forgetting.run loader.engine echo loader.now loader.disk).report.files →
        output.ReadsBackWithin Entry.maxResultDepth := by
    intro path output hmem
    cases files_forgetting ▸ hmem
  refine kept_loader.call (fun _ => ?_) houtputs
  obtain ⟨es, hes⟩ := exists_inStep_of_kept kept_loader
  have hoptions := (hes.stands_run houtputs).sameOptions
  rw [Cache.save, hoptions,
    if_pos (show (Cache.new sampleCache).options.persistent = true from rfl)]
  exact Archive.save_of_free isTree_savedDisk (by decide) wayTo_savedDisk free_savedDisk _ _ _

/-- Before the call a new engine would have known the file, and after it it does not. -/
theorem restart_holds_what_is_not_too_old_forgotten :
    (∃ n fresh, (Engine.new sampleCache loader.engine.pool loader.engine.rules).load 5 savedDisk =
        (.ok n, fresh) ∧ fresh.cache.entries.get? "/a" = some sampleEntry) ∧
      ∃ n fresh, (Engine.new sampleCache (loader.after echo forgetting).engine.pool
          (loader.after echo forgetting).engine.rules).load 5 (loader.after echo forgetting).disk =
        (.ok n, fresh) ∧ fresh.cache.entries.get? "/a" = none := by
  constructor
  · obtain ⟨n, fresh, hload, hget, -⟩ := restart_holds_what_is_not_too_old kept_loader
    exact ⟨n, fresh, hload, (hget _ _).mpr ⟨engine_loader.1, by decide⟩⟩
  · obtain ⟨n, fresh, hload, -, -, hgone⟩ := restart_holds_what_is_not_too_old kept_forgetting
    refine ⟨n, fresh, hload, hgone "/a" ⟨.inr (List.mem_singleton.mpr rfl), ?_⟩⟩
    intro f hf
    cases files_forgetting ▸ hf

end Session
end Engine
end AnalysisRunner
