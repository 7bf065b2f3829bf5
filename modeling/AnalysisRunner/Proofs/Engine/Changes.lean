import Mathlib.Data.List.Induction
import AnalysisRunner.Proofs.Engine.Repeated
import AnalysisRunner.Proofs.Engine.Restart
import AnalysisRunner.Proofs.Path.Table

/-!
# The last change of a path counts

A list of changes is taken into account one by one: a removal forgets the result for the file and
strikes the file off the list of those to analyze, and any other change puts the file on that
list if it is not there.  In the end the list holds the files of which the last change is no
removal (`Lists.listed`), in the order in which they came on it for good: at the first change
after the last removal (`Change.Opens`).

A file that was removed has lost its result even if it came back, because only an analysis brings
results in, and it reads the files of the list after all changes have been seen.  Here two
notions of sameness meet.  The list compares paths by their components and the cache by their
keys; for paths that are texts it is the same thing (`Path.normal_eq_iff`).
-/

namespace AnalysisRunner

/-! ## 1. The last change of a path -/

namespace Change

/-- The kind of the last change of a path, if there is any. -/
def lastKind? (changes : List Change) (p : Path) : Option ChangeKind :=
  ((changes.filter fun c => c.path.same p).getLast?).map Change.kind

variable {changes before after : List Change} {c d x : Change} {p : Path} {kind : ChangeKind}
  {i j : Nat}

theorem lastKind?_append (xs ys : List Change) (p : Path) :
    lastKind? (xs ++ ys) p = (lastKind? ys p).or (lastKind? xs p) := by
  rw [lastKind?, List.filter_append, List.getLast?_append, Option.map_or]
  rfl

theorem lastKind?_singleton (c : Change) (p : Path) :
    lastKind? [c] p = if c.path.components = p.components then some c.kind else none := by
  rw [lastKind?, List.filter_singleton]
  by_cases h : c.path.components = p.components
  · rw [if_pos h, Path.same_iff.mpr h]
    rfl
  · rw [if_neg h, Bool.eq_false_iff.mpr (mt Path.same_iff.mp h)]
    rfl

theorem lastKind?_append_singleton (changes : List Change) (c : Change) (p : Path) :
    lastKind? (changes ++ [c]) p =
      if c.path.components = p.components then some c.kind else lastKind? changes p := by
  rw [lastKind?_append, lastKind?_singleton]
  split <;> rfl

theorem exists_mem_of_lastKind? (h : lastKind? changes p = some kind) :
    ∃ c ∈ changes, c.path.components = p.components ∧ c.kind = kind := by
  obtain ⟨c, hc, rfl⟩ := Option.map_eq_some_iff.mp h
  obtain ⟨hmem, hsame⟩ := List.mem_filter.mp (List.mem_of_getLast? hc)
  exact ⟨c, hmem, Path.same_iff.mp hsame, rfl⟩

/-- Whether the change at a place is the first one of a path that is no removal and follows its
last removal, or its first change if it is never removed. -/
structure OpensBetween (before : List Change) (c : Change) (after : List Change) (p : Path) :
    Prop where
  names : c.path.components = p.components
  kind_ne : c.kind ≠ .remove
  /-- What came last before it, if anything, was a removal. -/
  fresh : ∀ kind, lastKind? before p = some kind → kind = .remove
  /-- No removal comes after it. -/
  lasting : ∀ d ∈ after, d.path.components = p.components → d.kind ≠ .remove

/-- Whether the change at a place of a list is the one from which on a path is to be analyzed. -/
def Opens (changes : List Change) (p : Path) (i : Nat) (c : Change) : Prop :=
  ∃ before after, changes = before ++ c :: after ∧ before.length = i ∧ OpensBetween before c after p

theorem Opens.lt_length (h : Opens changes p i c) : i < changes.length := by
  obtain ⟨before, after, rfl, rfl, -⟩ := h
  rw [List.length_append, List.length_cons]
  omega

theorem Opens.mem (h : Opens changes p i c) : c ∈ changes := by
  obtain ⟨before, after, rfl, -, -⟩ := h
  exact List.mem_append_right _ (List.mem_cons_self ..)

/-- A change that does not remove the path leaves its opening where it is. -/
theorem Opens.append_singleton (h : Opens changes p i c)
    (hx : x.path.components = p.components → x.kind ≠ .remove) : Opens (changes ++ [x]) p i c := by
  obtain ⟨before, after, rfl, hlength, hopens⟩ := h
  refine ⟨before, after ++ [x], by rw [List.append_assoc, List.cons_append], hlength,
    { hopens with lasting := fun d hd => ?_ }⟩
  rcases List.mem_append.mp hd with hd | hd
  · exact hopens.lasting d hd
  · rw [List.mem_singleton.mp hd]
    exact hx

/-- A path has one opening: of two, the later one would follow a removal that is after the
earlier one. -/
theorem Opens.not_lt (hi : Opens changes p i c) (hj : Opens changes p j d) : ¬ i < j := by
  obtain ⟨before, after, rfl, rfl, hopens⟩ := hi
  obtain ⟨before', after', hsplit, rfl, hopens'⟩ := hj
  intro hlt
  -- the later opening lies in what follows the earlier one
  obtain ⟨mid, hbefore', hafter⟩ :
      ∃ mid, before' = before ++ c :: mid ∧ after = mid ++ d :: after' := by
    rcases List.append_eq_append_iff.mp hsplit with ⟨rest, hrest, hcons⟩ | ⟨rest, hrest, -⟩
    · cases rest with
      | nil =>
        rw [hrest, List.append_nil] at hlt
        exact absurd hlt (Nat.lt_irrefl _)
      | cons y mid =>
        obtain ⟨rfl, hafter⟩ := List.cons.inj hcons
        exact ⟨mid, hrest, hafter⟩
    · rw [hrest, List.length_append] at hlt
      omega
  have hlast : lastKind? before' p =
      ((lastKind? mid p).or (some c.kind)).or (lastKind? before p) := by
    rw [hbefore', lastKind?_append, ← List.singleton_append, lastKind?_append, lastKind?_singleton,
      if_pos hopens.names]
  cases hmid : lastKind? mid p with
  | none =>
    rw [hmid, Option.none_or, Option.some_or] at hlast
    exact hopens.kind_ne (hopens'.fresh _ hlast)
  | some kind =>
    rw [hmid, Option.some_or, Option.some_or] at hlast
    obtain ⟨y, hy, hnames, hkind⟩ := exists_mem_of_lastKind? hmid
    refine hopens.lasting y ?_ hnames (hkind.trans (hopens'.fresh _ hlast))
    rw [hafter]
    exact List.mem_append_left _ hy

theorem Opens.unique (hi : Opens changes p i c) (hj : Opens changes p j d) : i = j :=
  Nat.le_antisymm (Nat.not_lt.mp (hj.not_lt hi)) (Nat.not_lt.mp (hi.not_lt hj))

end Change

/-! ## 2. The files to analyze -/

namespace Engine

open Change

variable {e e' : Engine} {analyzer : Analyzer} {now : UInt64} {disk disk' : FileTree}
  {changes : List Change} {targets : List Path} {c : Change}

/-- Whether files are those of which the last change is no removal, each once, as they are spelled
where they came to be listed for good, and in that order. -/
structure Lists (changes : List Change) (targets : List Path) : Prop where
  listed : ∀ p, (∃ q ∈ targets, q.components = p.components) ↔
    ∃ kind, lastKind? changes p = some kind ∧ kind ≠ .remove
  once : (targets.map Path.components).Nodup
  opened : ∀ p ∈ targets, ∃ i c, Opens changes p i c ∧ c.path = p
  ordered : targets.Pairwise fun p q => ∀ i c j d, Opens changes p i c → Opens changes q j d → i < j

namespace Lists

theorem nil : Lists [] [] := by
  refine ⟨fun p => ?_, List.nodup_nil, ?_, List.Pairwise.nil⟩
  · constructor
    · rintro ⟨q, hq, -⟩
      cases hq
    · rintro ⟨kind, hkind, -⟩
      cases hkind
  · intro p hp
    cases hp

section

variable {changes' : List Change} {targets' : List Path}

theorem opened_of_opens (h : Lists changes targets) (hsub : targets'.Sublist targets)
    (hopens : ∀ p ∈ targets', ∀ i d, Opens changes p i d → Opens changes' p i d) :
    ∀ p ∈ targets', ∃ i c, Opens changes' p i c ∧ c.path = p := by
  intro p hp
  obtain ⟨i, c, hi, hpath⟩ := h.opened p (hsub.subset hp)
  exact ⟨i, c, hopens p hp i c hi, hpath⟩

/-- Files that keep their openings keep their order. -/
theorem ordered_of_opens (h : Lists changes targets) (hsub : targets'.Sublist targets)
    (hopens : ∀ p ∈ targets', ∀ i d, Opens changes p i d → Opens changes' p i d) :
    targets'.Pairwise fun p q => ∀ i c j d, Opens changes' p i c →
      Opens changes' q j d → i < j := by
  refine (h.ordered.sublist hsub).imp_of_mem ?_
  intro p q hp hq hpq i' c' j' d' hi' hj'
  obtain ⟨i, c, hi, -⟩ := h.opened p (hsub.subset hp)
  obtain ⟨j, d, hj, -⟩ := h.opened q (hsub.subset hq)
  rw [hi'.unique (hopens p hp i c hi), hj'.unique (hopens q hq j d hj)]
  exact hpq i c j d hi hj

end

/-- A removal strikes a file off. -/
theorem strike (h : Lists changes targets) (hc : c.kind = .remove) :
    Lists (changes ++ [c]) (targets.filter fun p => !p.same c.path) := by
  have hmem : ∀ q, q ∈ targets.filter (fun p => !p.same c.path) ↔
      q ∈ targets ∧ q.components ≠ c.path.components := by
    intro q
    rw [List.mem_filter, Bool.not_eq_true', Path.same, decide_eq_false_iff_not]
  have hopens : ∀ q ∈ targets.filter (fun p => !p.same c.path), ∀ i d,
      Opens changes q i d → Opens (changes ++ [c]) q i d := by
    intro q hq i d hi
    exact hi.append_singleton fun hnames => absurd hnames.symm ((hmem q).mp hq).2
  refine ⟨fun p => ?_, ?_, h.opened_of_opens List.filter_sublist hopens,
    h.ordered_of_opens List.filter_sublist hopens⟩
  · rw [lastKind?_append_singleton]
    by_cases hp : c.path.components = p.components
    · rw [if_pos hp, hc]
      constructor
      · rintro ⟨q, hq, hsame⟩
        exact absurd (hsame.trans hp.symm) ((hmem q).mp hq).2
      · rintro ⟨kind, hkind, hne⟩
        exact absurd (Option.some.inj hkind).symm hne
    · rw [if_neg hp, ← h.listed p]
      constructor
      · rintro ⟨q, hq, hsame⟩
        exact ⟨q, ((hmem q).mp hq).1, hsame⟩
      · rintro ⟨q, hq, hsame⟩
        exact ⟨q, (hmem q).mpr ⟨hq, fun hqc => hp (hqc.symm.trans hsame)⟩, hsame⟩
  · exact h.once.sublist (List.filter_sublist.map _)

/-- A file that is listed stays where it is. -/
theorem again (h : Lists changes targets) (hc : c.kind ≠ .remove)
    (hlisted : ∃ q ∈ targets, q.components = c.path.components) :
    Lists (changes ++ [c]) targets := by
  have hopens : ∀ q ∈ targets, ∀ i d, Opens changes q i d → Opens (changes ++ [c]) q i d :=
    fun q _ i d hi => hi.append_singleton fun _ => hc
  refine ⟨fun p => ?_, h.once, h.opened_of_opens (List.Sublist.refl _) hopens,
    h.ordered_of_opens (List.Sublist.refl _) hopens⟩
  rw [lastKind?_append_singleton]
  by_cases hp : c.path.components = p.components
  · obtain ⟨q, hq, hsame⟩ := hlisted
    rw [if_pos hp]
    exact ⟨fun _ => ⟨c.kind, rfl, hc⟩, fun _ => ⟨q, hq, hsame.trans hp⟩⟩
  · rw [if_neg hp]
    exact h.listed p

/-- A file that is not listed comes to the end of the list. -/
theorem enlist (h : Lists changes targets) (hc : c.kind ≠ .remove)
    (hnew : ¬ ∃ q ∈ targets, q.components = c.path.components) :
    Lists (changes ++ [c]) (targets ++ [c.path]) := by
  have hopens : ∀ q ∈ targets, ∀ i d, Opens changes q i d → Opens (changes ++ [c]) q i d :=
    fun q _ i d hi => hi.append_singleton fun _ => hc
  -- were its last change no removal, the file would be listed
  have hlast : Opens (changes ++ [c]) c.path changes.length c := by
    refine ⟨changes, [], rfl, rfl, rfl, hc, fun kind hkind => ?_, fun d hd => ?_⟩
    · exact Decidable.byContradiction fun hne => hnew ((h.listed c.path).mpr ⟨kind, hkind, hne⟩)
    · cases hd
  refine ⟨fun p => ?_, ?_, ?_, ?_⟩
  · rw [lastKind?_append_singleton]
    by_cases hp : c.path.components = p.components
    · rw [if_pos hp]
      refine ⟨fun _ => ⟨c.kind, rfl, hc⟩, fun _ => ⟨c.path, ?_, hp⟩⟩
      exact List.mem_append_right _ (List.mem_singleton_self _)
    · rw [if_neg hp, ← h.listed p]
      constructor
      · rintro ⟨q, hq, hsame⟩
        rcases List.mem_append.mp hq with hq | hq
        · exact ⟨q, hq, hsame⟩
        · exact absurd (List.mem_singleton.mp hq ▸ hsame) hp
      · rintro ⟨q, hq, hsame⟩
        exact ⟨q, List.mem_append_left _ hq, hsame⟩
  · rw [List.map_append, List.map_singleton, List.nodup_append]
    refine ⟨h.once, List.nodup_singleton _, ?_⟩
    intro k hk l hl hkl
    obtain ⟨q, hq, rfl⟩ := List.mem_map.mp hk
    exact hnew ⟨q, hq, hkl.trans (List.mem_singleton.mp hl)⟩
  · intro p hp
    rcases List.mem_append.mp hp with hp | hp
    · exact h.opened_of_opens (List.Sublist.refl _) hopens p hp
    · rw [List.mem_singleton.mp hp]
      exact ⟨_, c, hlast, rfl⟩
  · rw [List.pairwise_append]
    refine ⟨h.ordered_of_opens (List.Sublist.refl _) hopens, List.pairwise_singleton _ _, ?_⟩
    intro p hp q hq i' c' j' d' hi' hj'
    rw [List.mem_singleton.mp hq] at hj'
    obtain ⟨i, d, hi, -⟩ := h.opened p hp
    rw [hi'.unique (hopens p hp i d hi), hj'.unique hlast]
    exact hi.lt_length

/-- **One change is taken into account.** -/
theorem takeChange (h : Lists changes targets) (e : Engine) (c : Change) :
    Lists (changes ++ [c]) (Engine.takeChange (targets, e) c).1 := by
  unfold Engine.takeChange
  dsimp only
  split
  · rename_i hc
    exact h.strike hc
  · rename_i hc
    by_cases hlisted : ∃ q ∈ targets, q.components = c.path.components
    · have hany : (targets.any fun p => p.same c.path) = true := by
        obtain ⟨q, hq, hsame⟩ := hlisted
        exact List.any_eq_true.mpr ⟨q, hq, Path.same_iff.mpr hsame⟩
      rw [if_pos hany]
      exact h.again hc hlisted
    · have hany : ¬ (targets.any fun p => p.same c.path) = true := by
        intro hany
        obtain ⟨q, hq, hsame⟩ := List.any_eq_true.mp hany
        exact hlisted ⟨q, hq, Path.same_iff.mp hsame⟩
      rw [if_neg hany]
      exact h.enlist hc hlisted

end Lists

/-- **The files of a list of changes are those whose last change is no removal.** -/
theorem lists_foldl_takeChange (e : Engine) (changes : List Change) :
    Lists changes (changes.foldl takeChange ([], e)).1 := by
  induction changes using List.reverseRecOn with
  | nil => exact .nil
  | append_singleton changes c ih =>
    rw [List.foldl_append]
    exact ih.takeChange (changes.foldl takeChange ([], e)).2 c

/-! ## 3. What is forgotten -/

variable {ran : List (Task (Path × String) Json × Outcome Json)} {r : Report} {k : String}

/-- **An analysis fills no key but those of its files.** -/
theorem Goes.get?_eq_none {paths : List Path} (h : e.Goes analyzer now disk paths ran r e')
    (hnone : e.cache.entries.get? k = none) (hk : ∀ p ∈ paths, k ≠ p.normal) :
    e'.cache.entries.get? k = none := by
  have hon := h.isReportOn
  obtain ⟨results, -, rfl, rfl⟩ := h
  refine absorbFrom_induction (Q := fun c => c.entries.get? k = none) ?_ (fun f hf => hf) ?_
  · cases hplan : (e.plan now disk paths).2.cache.entries.get? k with
    | none => rfl
    | some entry =>
      rw [(e.sheds_plan now disk paths).kept k entry hplan] at hnone
      cases hnone
  · intro c path content configHash output hf hc
    have hpath : path ∈ paths := hon.paths_eq ▸ List.mem_map_of_mem hf
    rw [Cache.get?_set, if_neg (hk path hpath), hc, ite_self]

/-- Changes empty the keys of all files that they remove, also of those that come back. -/
theorem get?_prepared_of_remove (e : Engine) (hc : c ∈ changes) (hkind : c.kind = .remove) :
    ((Call.changes changes).prepared e).cache.entries.get? c.path.normal = none := by
  refine Call.get?_prepared_of_mem (List.mem_map_of_mem (List.mem_map_of_mem ?_))
  exact List.mem_filter.mpr ⟨hc, decide_eq_true hkind⟩

/-- A file of which the key is empty is not known. -/
theorem Settled.isCached_eq_false {path : Path} {index : Nat} {result : FileResult}
    (h : Settled e analyzer now disk ran path index result)
    (hnone : e.cache.entries.get? path.normal = none) : result.isCached = false := by
  cases h with
  | known read found =>
    obtain ⟨entry, hentry, -⟩ := Cache.get_eq_some_iff.mp found
    rw [hnone] at hentry
    cases hentry
  | unreadable read => rfl
  | analyzed read missed joined => rfl
  | failed read missed joined => rfl
  | skipped read missed left stop failure => rfl

/-! ## 4. Reports on changes -/

/-- Whether a call can go like this. -/
def Call.Goes (c : Call) (e : Engine) (analyzer : Analyzer) (now : UInt64) (disk : FileTree)
    (ran : List (Task (Path × String) Json × Outcome Json)) (r : Report) (e' : Engine) : Prop :=
  (c.prepared e).Goes analyzer now disk (c.targets e) ran r e'

/-- Changes are handled by an analysis; only what is saved may differ. -/
theorem handleChanges_eq (e : Engine) (analyzer : Analyzer) (now : UInt64) (disk : FileTree)
    (changes : List Change) :
    ∃ saved, e.handleChanges analyzer now disk changes =
      { ((Call.changes changes).prepared e).analyze analyzer now disk
          ((Call.changes changes).targets e) with disk := saved } := by
  unfold handleChanges
  dsimp only
  split
  · exact ⟨_, rfl⟩
  · exact ⟨_, rfl⟩

/-- Whether a report and an engine go by the last change of each path: `reached` are the files that
were given to the analyzer. -/
structure ActsOnLast (changes : List Change) (reached : List Path) (r : Report) (e' : Engine) :
    Prop where
  /-- The report lists the files of which the last change is no removal. -/
  lists : Lists changes (r.files.map FileReport.path)
  /-- No other file is analyzed. -/
  reached_subset : ∀ p ∈ reached, p ∈ r.files.map FileReport.path
  /-- What was removed last has no result in the cache. -/
  forgotten : ∀ p, lastKind? changes p = some .remove → e'.cache.entries.get? p.normal = none
  /-- What was removed and came back is not known. -/
  renewed : ∀ f ∈ r.files, ∀ c ∈ changes, c.kind = .remove →
    c.path.components = f.path.components → f.result.isCached = false

/-- What holds of the files of a report holds of the files that were asked for. -/
theorem IsReportOn.forall_mem_paths {paths : List Path}
    (h : IsReportOn e analyzer now disk ran paths r) {P : Path → Prop}
    (hP : ∀ f ∈ r.files, P f.path) : ∀ p ∈ paths, P p := by
  intro p hp
  rw [← h.paths_eq] at hp
  obtain ⟨f, hf, rfl⟩ := List.mem_map.mp hp
  exact hP f hf

theorem actsOnLast_of_goes (htext : ∀ c ∈ changes, c.path.bytes.IsText) {reached : List Path}
    (h : (Call.changes changes).Goes e analyzer now disk ran r e')
    (hreached : ∀ p ∈ reached, ∃ source, (p, Plan.pending source) ∈
      (((Call.changes changes).prepared e).plan now disk ((Call.changes changes).targets e)).1) :
    ActsOnLast changes reached r e' := by
  have hlists : Lists changes ((Call.changes changes).targets e) := lists_foldl_takeChange e changes
  have hon := Goes.isReportOn h
  refine ⟨hon.paths_eq ▸ hlists, ?_, ?_, ?_⟩
  · intro p hp
    obtain ⟨source, hx⟩ := hreached p hp
    rw [hon.paths_eq]
    exact mem_of_mem_plan hx
  · intro p hp
    obtain ⟨c, hc, hnames, hkind⟩ := exists_mem_of_lastKind? hp
    rw [show p.normal = c.path.normal by rw [Path.normal, Path.normal, hnames]]
    refine Goes.get?_eq_none h (get?_prepared_of_remove e hc hkind) fun q hq hkey => ?_
    -- a file of the list that shares the key would be the path itself, which is not listed
    obtain ⟨i, d, hopens, rfl⟩ := hlists.opened q hq
    have hsame := (Path.normal_eq_iff (htext c hc) (htext d hopens.mem)).mp hkey
    obtain ⟨kind, hlast, hne⟩ := (hlists.listed p).mp ⟨d.path, hq, hsame.symm.trans hnames⟩
    rw [hp] at hlast
    exact hne (Option.some.inj hlast).symm
  · intro f hf c hc hkind hnames
    obtain ⟨index, hindex⟩ := List.mem_iff_getElem?.mp hf
    refine (hon.settled index f hindex).isCached_eq_false ?_
    rw [show f.path.normal = c.path.normal by rw [Path.normal, Path.normal, hnames]]
    exact get?_prepared_of_remove e hc hkind

/-- **Changes are handled by the last change of each path.**  For every list of changes of paths
that are texts, and every engine: the report lists the files of which the last change is no
removal, each once, in the order of the first changes after their last removals.  No other file is
analyzed, and none is read: the same happens on every disk on which these files are the same.  A
file that was removed last has no result in the cache afterwards, and one that was removed and came
back is not served from the cache.  This is so whichever way the analysis goes, and as it goes on
its timeline. -/
theorem changes_act_on_last (e : Engine) (analyzer : Analyzer) (now : UInt64) (disk : FileTree)
    (htext : ∀ c ∈ changes, c.path.bytes.IsText) :
    (∀ ran r e', (Call.changes changes).Goes e analyzer now disk ran r e' →
      ActsOnLast changes (ran.map fun j => j.1.input.1) r e' ∧
        ∀ disk' : FileTree, (∀ f ∈ r.files, disk'.readText f.path = disk.readText f.path) →
          (Call.changes changes).Goes e analyzer now disk' ran r e') ∧
    ActsOnLast changes (e.handleChanges analyzer now disk changes).calls
      (e.handleChanges analyzer now disk changes).report
      (e.handleChanges analyzer now disk changes).engine ∧
    ∀ disk' : FileTree, (∀ f ∈ (e.handleChanges analyzer now disk changes).report.files,
        disk'.readText f.path = disk.readText f.path) →
      (e.handleChanges analyzer now disk' changes).report =
          (e.handleChanges analyzer now disk changes).report ∧
        (e.handleChanges analyzer now disk' changes).engine =
          (e.handleChanges analyzer now disk changes).engine ∧
        (e.handleChanges analyzer now disk' changes).calls =
          (e.handleChanges analyzer now disk changes).calls := by
  refine ⟨fun ran r e' h => ⟨?_, fun disk' hread => ?_⟩, ?_, fun disk' hread => ?_⟩
  · refine actsOnLast_of_goes htext h fun p hp => ?_
    obtain ⟨j, hj, rfl⟩ := List.mem_map.mp hp
    exact Goes.pending_of_mem h hj
  · exact Goes.congr h ((Goes.isReportOn h).forall_mem_paths hread)
  · obtain ⟨saved, hsaved⟩ := e.handleChanges_eq analyzer now disk changes
    rw [hsaved]
    obtain ⟨ran, h⟩ := exists_goes_analyze ((Call.changes changes).prepared e) analyzer now disk
      ((Call.changes changes).targets e)
    exact actsOnLast_of_goes htext h fun p hp => pending_of_mem_calls hp
  · obtain ⟨saved, hsaved⟩ := e.handleChanges_eq analyzer now disk changes
    obtain ⟨saved', hsaved'⟩ := e.handleChanges_eq analyzer now disk' changes
    rw [hsaved] at hread ⊢
    rw [hsaved']
    obtain ⟨ran, h⟩ := exists_goes_analyze ((Call.changes changes).prepared e) analyzer now disk
      ((Call.changes changes).targets e)
    exact analyze_congr _ analyzer now (h.isReportOn.forall_mem_paths hread)

/-! ## 5. A file that comes back

One file is known and is replaced, under two spellings of its path; another one comes and goes. -/

/-- The changes. -/
def replaced : List Change :=
  [⟨.ofText "//a", .remove, ⟨0, 0⟩⟩, ⟨.ofText "/b", .add, ⟨0, 0⟩⟩, ⟨.ofText "/a/.", .add, ⟨0, 0⟩⟩,
    ⟨.ofText "/b", .remove, ⟨0, 0⟩⟩]

/-- The engine before them. -/
def informed : Engine :=
  (tight.analyze (picky "x") 7 twoFiles [.ofText "/a", .ofText "/b"]).engine

theorem isSome_get?_informed : (informed.cache.entries.get? "/a").isSome = true := by
  simp only [informed, analyze, plan, planFile, readText_twoFiles.1, readText_twoFiles.2]
  rfl

theorem changes_act_on_last_replaced :
    (informed.cache.entries.get? "/a").isSome = true ∧
      (∃ f ∈ (informed.handleChanges (picky "x") 7 twoFiles replaced).report.files,
        f.path.components = (Path.ofText "/a").components ∧ f.result.isCached = false) ∧
      (informed.handleChanges (picky "x") 7 twoFiles replaced).engine.cache.entries.get?
        (Path.ofText "/b").normal = none := by
  have htext : ∀ c ∈ replaced, c.path.bytes.IsText := by
    intro c hc
    simp only [replaced, List.mem_cons, List.not_mem_nil, or_false] at hc
    rcases hc with rfl | rfl | rfl | rfl <;> exact ⟨_, rfl⟩
  have hacts := (changes_act_on_last informed (picky "x") 7 twoFiles htext).2.1
  obtain ⟨q, hq, hnames⟩ := (hacts.lists.listed (.ofText "/a")).mpr ⟨.add, by decide, by decide⟩
  obtain ⟨f, hf, rfl⟩ := List.mem_map.mp hq
  refine ⟨isSome_get?_informed, ⟨f, hf, hnames, ?_⟩, hacts.forgotten (.ofText "/b") (by decide)⟩
  refine hacts.renewed f hf ⟨.ofText "//a", .remove, ⟨0, 0⟩⟩ (List.mem_cons_self ..) rfl ?_
  rw [hnames]
  decide

end Engine
end AnalysisRunner
