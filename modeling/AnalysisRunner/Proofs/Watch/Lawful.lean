import AnalysisRunner.Proofs.Watch.Settled

/-!
# What a watch table may hold

Four tables say what is watched, and almost everything that happens to a watcher edits one of
them.  `WatchTable.Lawful` is what they have in common at any time: an excluded path is neither
tracked nor named, and what is tracked stands under its own path, was seen, and is *entitled*
to be there.  A path is entitled if it was named, or if it lies in a watched directory and the
filter accepts it from there.

Two things put a path into the table that nobody has named: a look at a file, which asks whether
the file is eligible, and a scan of a directory, which asks the filter for each file.  Both
leave out what is excluded at the moment when the table is changed.  What was read from the disk
for it does not depend on the tables, so a call that comes between reading and changing is like
one that comes before both.

So a file that was dropped stays away.  As long as its path is excluded nothing tracks it and no
change of it is reported (`WatchTable.excluded_of_mem_settle`), and only a call that names the
file again or a new session ends that (`WatchState.Step.bars`).
-/

namespace AnalysisRunner

/-! ## 1. What a scan finds is entitled -/

/-- Whether everything on a disk has a name that a file can have. -/
def FileTree.IsNamed (disk : FileTree) : Prop :=
  ∀ loc n, disk.nodes.get? loc = some n → loc.IsNamed

theorem FileTree.IsNamed.of_mem_scan {disk : FileTree} (h : disk.IsNamed) {filter : Filter}
    {root dir : Path} {e : WatchEntry} (he : e ∈ disk.scan filter root dir) :
    dir.components <+: e.path.components ∧ filter.accepts e.path root = true := by
  have hfuel : ∀ (fuel : Nat) (loc : Location) (dir : Path),
      e ∈ disk.scanUpTo filter root fuel loc dir →
        dir.components <+: e.path.components ∧ filter.accepts e.path root = true := by
    intro fuel
    induction fuel with
    | zero => exact fun _ _ he => nomatch he
    | succ fuel ih =>
      intro loc dir he
      obtain ⟨name, node, hchild, hfound⟩ := FileTree.mem_scanUpTo_succ.mp he
      have hname := h _ _ (FileTree.mem_children_iff.mp hchild) name (by simp)
      have hbelow : dir.components <+: (dir.join ⟨name⟩).components := by
        rw [Path.components_join dir hname.inner]
        exact List.prefix_append ..
      rcases hfound with ⟨-, -, he⟩ | ⟨-, haccepts, s, -, rfl⟩
      · obtain ⟨hstarts, haccepts⟩ := ih _ _ he
        exact ⟨hbelow.trans hstarts, haccepts⟩
      · exact ⟨hbelow, haccepts⟩
  rw [FileTree.scan] at he
  split at he
  · exact hfuel _ _ _ he
  · cases he

namespace WatchTable

variable {t : WatchTable} {disk : FileTree} {p q : Path} {time : Timestamp}

/-- Whether a path may be tracked: it was named, or it lies in a watched directory from which the
filter accepts it. -/
def Entitled (t : WatchTable) (p : Path) : Prop :=
  t.explicit.has p = true ∨
    ∃ root ∈ t.roots, p.startsWith root = true ∧ t.filter.accepts p root = true

theorem mem_of_rootFor {root : Path} (h : t.rootFor p = some root) :
    root ∈ t.roots ∧ p.startsWith root = true := by
  have hfold : ∀ (roots : List Path) (best : Option Path),
      roots.foldl deeper best = some root → best = some root ∨ root ∈ roots := by
    intro roots
    induction roots with
    | nil => exact fun best h => .inl h
    | cons first rest ih =>
      intro best h
      rcases ih _ h with hbest | hmem
      · unfold deeper at hbest
        split at hbest
        · exact .inr (Option.some.inj hbest ▸ List.mem_cons_self ..)
        · split at hbest
          · exact .inr (Option.some.inj hbest ▸ List.mem_cons_self ..)
          · exact .inl hbest
      · exact .inr (List.mem_cons_of_mem _ hmem)
  rcases hfold _ _ h with hnone | hmem
  · cases hnone
  · exact List.mem_filter.mp hmem

theorem entitled_of_isEligible (h : t.isEligible p = true) :
    t.excluded.has p = false ∧ t.Entitled p := by
  rw [isEligible, Bool.and_eq_true, Bool.or_eq_true, Option.any_eq_true] at h
  obtain ⟨hfree, hnamed | ⟨root, hroot, haccepts⟩⟩ := h
  · exact ⟨by simpa using hfree, .inl hnamed⟩
  · obtain ⟨hmem, hstarts⟩ := mem_of_rootFor hroot
    exact ⟨by simpa using hfree, .inr ⟨root, hmem, hstarts, haccepts⟩⟩

theorem entitled_of_mem_scan (hdisk : disk.IsNamed) {root : Path} (hroot : root ∈ t.roots)
    (hp : p.startsWith root = true) {e : WatchEntry} (he : e ∈ disk.scan t.filter root p) :
    t.Entitled e.path := by
  obtain ⟨hbelow, haccepts⟩ := hdisk.of_mem_scan he
  refine .inr ⟨root, hroot, ?_, haccepts⟩
  rw [Path.startsWith, List.isPrefixOf_iff_prefix] at hp ⊢
  exact hp.trans hbelow

/-! ## 2. Lawful tables -/

/-- **What holds of a watch table at any time.** -/
structure Lawful (t : WatchTable) : Prop where
  /-- What is excluded is not tracked. -/
  untracked : ∀ p, t.excluded.has p = true → t.tracked.has p = false
  /-- What is excluded is not named. -/
  unnamed : ∀ p, t.excluded.has p = true → t.explicit.has p = false
  /-- What is tracked is spelled as its key says, and so is the path in its entry. -/
  filed : ∀ k p e, t.tracked.get? k = some (p, e) → p.components = k ∧ e.path.components = k
  /-- What is tracked was seen. -/
  seen : ∀ k p e, t.tracked.get? k = some (p, e) → e.signature.isSome = true
  /-- What is tracked is entitled to it, as it is spelled. -/
  entitled : ∀ k p e, t.tracked.get? k = some (p, e) → t.Entitled p

/-- Whether nothing is watched. -/
structure IsBlank (t : WatchTable) : Prop where
  roots : t.roots = []
  explicit : t.explicit = .empty
  excluded : t.excluded = .empty
  tracked : t.tracked = .empty

theorem isBlank_forget (t : WatchTable) : t.forget.IsBlank :=
  ⟨rfl, rfl, rfl, rfl⟩

namespace Lawful

/-- A table that excludes and tracks nothing is lawful. -/
theorem of_empty (hexcluded : t.excluded = .empty) (htracked : t.tracked = .empty) : t.Lawful := by
  have hnone : ∀ p, t.excluded.has p = false := by
    rw [hexcluded]
    exact fun _ => rfl
  have hget : ∀ k, t.tracked.get? k = none := by
    rw [htracked]
    exact fun _ => rfl
  refine ⟨fun p hp => ?_, fun p hp => ?_, fun k p e he => ?_, fun k p e he => ?_,
    fun k p e he => ?_⟩
  · rw [hnone] at hp
    cases hp
  · rw [hnone] at hp
    cases hp
  all_goals
    rw [hget] at he
    cases he

theorem sound (h : t.Lawful) : t.Sound := by
  refine ⟨fun k x hx => (h.filed k x.1 x.2 hx).1, fun p e he => ?_⟩
  obtain ⟨x, hx, rfl⟩ := Option.map_eq_some_iff.mp he
  exact h.seen _ x.1 x.2 hx

/-- A path that is tracked is not excluded. -/
theorem excluded_of_tracked (h : t.Lawful) (hp : t.tracked.has p = true) :
    t.excluded.has p = false := by
  cases hexcluded : t.excluded.has p with
  | false => rfl
  | true =>
    rw [h.untracked p hexcluded] at hp
    cases hp

/-- What is tracked is entitled to it, in some spelling. -/
theorem entitled_of_has (h : t.Lawful) (hp : t.tracked.has p = true) :
    ∃ q, q.components = p.components ∧ t.Entitled q := by
  rw [PathTable.has_eq, Option.isSome_iff_exists] at hp
  obtain ⟨⟨q, e⟩, hget⟩ := hp
  exact ⟨q, (h.filed _ q e hget).1, h.entitled _ q e hget⟩

theorem count (h : t.Lawful) (time : Timestamp) : (t.count time).Lawful :=
  ⟨h.untracked, h.unnamed, h.filed, h.seen, h.entitled⟩

/-- A path that is not excluded may be tracked, if it is entitled to it or tracked already. -/
theorem track (h : t.Lawful) (hfree : t.excluded.has p = false)
    (hentitled : t.tracked.has p = false → t.Entitled p) {signature : Option Signature}
    (hseen : signature.isSome = true) : (t.track p signature).Lawful := by
  have hget : ∀ k q e, (t.track p signature).tracked.get? k = some (q, e) →
      (k = p.components ∧ e = ⟨p, signature⟩ ∧
        (q = p ∧ t.tracked.has p = false ∨ ∃ e', t.tracked.get? k = some (q, e'))) ∨
      t.tracked.get? k = some (q, e) := by
    intro k q e he
    rw [WatchTable.track, PathTable.get?_put] at he
    split at he
    · rename_i hk
      obtain ⟨hq, he⟩ := Prod.mk.inj (Option.some.inj he)
      refine .inl ⟨hk, he.symm, ?_⟩
      cases hold : t.tracked.get? k with
      | none =>
        rw [hold] at hq
        exact .inl ⟨hq.symm, by rw [PathTable.has_eq, ← hk, hold]; rfl⟩
      | some x =>
        rw [hold] at hq
        exact .inr ⟨x.2, by rw [← hq]; rfl⟩
    · exact .inr he
  refine ⟨fun q hq => ?_, h.unnamed, fun k q e he => ?_, fun k q e he => ?_, fun k q e he => ?_⟩
  · show (t.tracked.put p _).has q = false
    have hne : q.components ≠ p.components := by
      intro hsame
      rw [PathTable.has_congr _ hsame.symm] at hfree
      exact absurd (hfree.symm.trans hq) Bool.false_ne_true
    rw [PathTable.has_put, h.untracked q hq]
    simp [hne]
  · rcases hget k q e he with ⟨hk, rfl, ⟨rfl, -⟩ | ⟨e', he'⟩⟩ | he
    · exact ⟨hk.symm, hk.symm⟩
    · exact ⟨(h.filed k q e' he').1, hk.symm⟩
    · exact h.filed k q e he
  · rcases hget k q e he with ⟨-, rfl, -⟩ | he
    · exact hseen
    · exact h.seen k q e he
  · rcases hget k q e he with ⟨-, -, ⟨rfl, hnew⟩ | ⟨e', he'⟩⟩ | he
    · exact hentitled hnew
    · exact h.entitled k q e' he'
    · exact h.entitled k q e he

/-- Fewer tracked paths are as lawful. -/
theorem untrack (h : t.Lawful) (p : Path) : (t.untrack p).Lawful := by
  have hget : ∀ k x, (t.untrack p).tracked.get? k = some x → t.tracked.get? k = some x := by
    intro k x hx
    rw [WatchTable.untrack, PathTable.get?_remove] at hx
    split at hx
    · cases hx
    · exact hx
  refine ⟨fun q hq => ?_, h.unnamed, fun k q e he => h.filed k q e (hget k _ he),
    fun k q e he => h.seen k q e (hget k _ he), fun k q e he => h.entitled k q e (hget k _ he)⟩
  show (t.tracked.remove p).has q = false
  rw [PathTable.has_remove, h.untracked q hq, Bool.and_false]

/-- A path may be named if it is excluded no longer. -/
theorem name (h : t.Lawful) (p : Path) (excluded : PathSet)
    (hfewer : ∀ q, excluded.has q = true → t.excluded.has q = true ∧ q.components ≠ p.components) :
    ({ t with excluded, explicit := PathSet.add t.explicit p } : WatchTable).Lawful := by
  refine ⟨fun q hq => h.untracked q (hfewer q hq).1, fun q hq => ?_, h.filed, h.seen,
    fun k q e he => ?_⟩
  · obtain ⟨hq, hne⟩ := hfewer q hq
    show (PathTable.put t.explicit p ()).has q = false
    rw [PathTable.has_put, h.unnamed q hq]
    simp [hne]
  · refine (h.entitled k q e he).imp_left fun hnamed => ?_
    show (PathTable.put t.explicit p ()).has q = true
    rw [PathTable.has_put, hnamed, Bool.or_true]

/-! ## 3. Looks and calls -/

theorem foldl_lose (h : t.Lawful) (gone : List Path) (time : Timestamp) :
    (gone.foldl (lose time) t).Lawful := by
  induction gone generalizing t with
  | nil => exact h
  | cons p rest ih => exact ih ((h.untrack p).count time)

theorem apply (h : t.Lawful) (time : Timestamp) (p : Path) (current : Option Signature) :
    (t.apply time p current).2.Lawful := by
  have hhas := t.tracked.has_eq_isSome_find? p
  unfold WatchTable.apply
  split
  · exact h
  · rename_i hfree
    rw [Bool.not_eq_true] at hfree
    cases hfind : t.tracked.find? p with
    | none =>
      cases current with
      | none => exact h.foldl_lose _ time
      | some s =>
        dsimp only [Option.map_none]
        split
        · rename_i heligible
          exact (h.track hfree (fun _ => (entitled_of_isEligible heligible).2) rfl).count time
        · exact h
    | some e =>
      rw [hfind] at hhas
      have htracked : t.tracked.has p = false → t.Entitled p := by
        rw [hhas]
        exact fun hnone => nomatch hnone
      obtain ⟨previous, hprevious⟩ := Option.isSome_iff_exists.mp (h.sound.seen p e hfind)
      rw [Option.map_some, hprevious]
      cases current with
      | none => exact (h.untrack p).count time
      | some s =>
        dsimp only
        split
        · exact h
        · exact (h.track hfree htracked rfl).count time

theorem discover (h : t.Lawful) (time : Timestamp) {entries : List WatchEntry}
    (hentries : ∀ e ∈ entries, e.signature.isSome = true ∧ t.Entitled e.path) :
    (t.discover time entries).2.Lawful := by
  induction entries generalizing t with
  | nil => exact h
  | cons e rest ih =>
    obtain ⟨hseen, hentitled⟩ := hentries e (List.mem_cons_self ..)
    have hrest : ∀ e ∈ rest, e.signature.isSome = true ∧ t.Entitled e.path := fun e he =>
      hentries e (List.mem_cons_of_mem _ he)
    rw [WatchTable.discover]
    split
    · exact ih h hrest
    · rename_i hnew
      rw [Bool.or_eq_true, not_or, Bool.not_eq_true, Bool.not_eq_true] at hnew
      -- to be entitled does not depend on what is tracked
      exact ih ((h.track hnew.2 (fun _ => hentitled) hseen).count time) hrest

/-- **A look keeps a table lawful.** -/
theorem settle (h : t.Lawful) (hdisk : disk.IsNamed) (time : Timestamp) (p : Path) :
    (t.settle disk time p).2.Lawful := by
  unfold WatchTable.settle
  cases disk.look p with
  | missing => exact h.apply time p none
  | file signature => exact h.apply time p (some signature)
  | directory =>
    dsimp only
    cases hroot : t.rootFor p with
    | none => exact h
    | some root =>
      obtain ⟨hmem, hstarts⟩ := mem_of_rootFor hroot
      refine h.discover time fun e he => ⟨?_, entitled_of_mem_scan hdisk hmem hstarts he⟩
      obtain ⟨s, hs, -⟩ := FileTree.look_of_mem_scan he
      rw [hs]
      rfl

theorem withFile (h : t.Lawful) (path : Path) (sight : Sight) :
    (Watcher.withFile t path sight).Lawful := by
  have hnamed := h.name path (t.excluded.remove path) fun q hq => by
    rw [PathTable.has_remove, Bool.and_eq_true] at hq
    exact ⟨hq.2, by simpa using hq.1⟩
  cases sight with
  | missing => exact hnamed
  | directory => exact hnamed
  | file signature =>
    refine hnamed.track (p := path) ?_ (fun _ => .inl ?_) (Option.isSome_some (a := signature))
    · show (t.excluded.remove path).has path = false
      rw [PathTable.has_remove]
      simp
    · show (PathTable.put t.explicit path ()).has path = true
      rw [PathTable.has_put]
      simp

theorem withoutFile (h : t.Lawful) (path : Path) : (Watcher.withoutFile t path).Lawful := by
  have huntracked := h.untrack path
  have hcases : ∀ q, (PathTable.put t.excluded path ()).has q = true →
      q.components = path.components ∨ t.excluded.has q = true := by
    intro q hq
    rw [PathTable.has_put, Bool.or_eq_true, decide_eq_true_eq] at hq
    exact hq
  refine ⟨fun q hq => ?_, fun q hq => ?_, huntracked.filed, huntracked.seen, fun k q e he => ?_⟩
  · show (t.tracked.remove path).has q = false
    rw [PathTable.has_remove]
    rcases hcases q hq with hsame | hq
    · simp [hsame]
    · rw [h.untracked q hq, Bool.and_false]
  · show (t.explicit.remove path).has q = false
    rw [PathTable.has_remove]
    rcases hcases q hq with hsame | hq
    · simp [hsame]
    · rw [h.unnamed q hq, Bool.and_false]
  · have hne : q.components ≠ path.components := by
      rw [(huntracked.filed k q e he).1]
      rintro rfl
      rw [Watcher.withoutFile, PathTable.get?_remove, if_pos rfl] at he
      cases he
    refine (huntracked.entitled k q e he).imp_left fun hnamed => ?_
    show (t.explicit.remove path).has q = true
    rw [PathTable.has_remove, show t.explicit.has q = true from hnamed]
    simp [hne]

/-- **A session begins with a lawful table.** -/
theorem opened (t : WatchTable) (hdisk : disk.IsNamed) (roots : List Path) {files : List WatchEntry}
    (hfiles : ∀ e ∈ files, e.signature.isSome = true) :
    (Watcher.opened t roots (Watcher.scanAll disk t.filter roots) files).Lawful := by
  have hscanned : ∀ (entries : List WatchEntry) (t : WatchTable), t.Lawful → t.excluded = .empty →
      (∀ e ∈ entries, e.signature.isSome = true ∧ t.Entitled e.path) →
        (entries.foldl (fun t e => t.track e.path e.signature) t).Lawful ∧
          (entries.foldl (fun t e => t.track e.path e.signature) t).excluded = .empty := by
    intro entries
    induction entries with
    | nil => exact fun t h hexcluded _ => ⟨h, hexcluded⟩
    | cons e rest ih =>
      intro t h hexcluded hentries
      obtain ⟨hseen, hentitled⟩ := hentries e (List.mem_cons_self ..)
      refine ih _ (h.track (by rw [hexcluded]; rfl) (fun _ => hentitled) hseen) hexcluded ?_
      exact fun e he => hentries e (List.mem_cons_of_mem _ he)
  have hnamed : ∀ (entries : List WatchEntry) (t : WatchTable), t.Lawful → t.excluded = .empty →
      (∀ e ∈ entries, e.signature.isSome = true) →
        (entries.foldl (fun t e => WatchTable.track
          { t with explicit := PathSet.add t.explicit e.path } e.path e.signature) t).Lawful := by
    intro entries
    induction entries with
    | nil => exact fun t h _ _ => h
    | cons e rest ih =>
      intro t h hexcluded hentries
      have hname := h.name e.path t.excluded fun q hq => by
        rw [hexcluded] at hq
        cases hq
      refine ih _ (hname.track (p := e.path) ?_ (fun _ => .inl ?_)
        (hentries e (List.mem_cons_self ..))) hexcluded fun e he =>
          hentries e (List.mem_cons_of_mem _ he)
      · show t.excluded.has e.path = false
        rw [hexcluded]
        rfl
      · show (PathTable.put t.explicit e.path ()).has e.path = true
        rw [PathTable.has_put]
        simp
  have hempty : ({ t.forget with roots } : WatchTable).Lawful := of_empty rfl rfl
  obtain ⟨hlawful, hexcluded⟩ := hscanned (Watcher.scanAll disk t.filter roots) _ hempty rfl
    fun e he => by
      refine ⟨Watcher.seen_of_mem_scanAll he, ?_⟩
      obtain ⟨root, hroot, he⟩ := List.mem_flatMap.mp he
      refine entitled_of_mem_scan (t := { t.forget with roots }) hdisk hroot ?_ he
      rw [Path.startsWith]
      exact List.isPrefixOf_iff_prefix.mpr List.prefix_rfl
  exact hnamed files _ hlawful hexcluded hfiles

end Lawful

/-- **No look reports an excluded path.** -/
theorem excluded_of_mem_settle (h : t.Lawful) {c : Change} (hc : c ∈ (t.settle disk time p).1) :
    t.excluded.has c.path = false := by
  have happly : ∀ current, c ∈ (t.apply time p current).1 → t.excluded.has c.path = false := by
    intro current hc
    unfold apply at hc
    split at hc
    · cases hc
    · rename_i hfree
      rw [Bool.not_eq_true] at hfree
      have hself : ∀ kind, c ∈ [(⟨p, kind, time⟩ : Change)] → t.excluded.has c.path = false := by
        intro kind hc
        rw [List.mem_singleton.mp hc]
        exact hfree
      split at hc
      · cases hc
      · exact hself _ hc
      · exact hself _ hc
      · split at hc
        · cases hc
        · exact hself _ hc
      · split at hc
        · exact hself _ hc
        · cases hc
      · obtain ⟨file, hfile, rfl⟩ := List.mem_map.mp hc
        exact h.excluded_of_tracked
          (h.sound.keyed.has_of_mem_sortedPaths (List.mem_filter.mp hfile).1)
  have hdiscover : ∀ (entries : List WatchEntry) (t : WatchTable),
      c ∈ (t.discover time entries).1 → t.excluded.has c.path = false := by
    intro entries
    induction entries with
    | nil => exact fun t hc => nomatch hc
    | cons e rest ih =>
      intro t hc
      rw [discover] at hc
      split at hc
      · exact ih t hc
      · rename_i hnew
        rcases List.mem_cons.mp hc with rfl | hc
        · rw [Bool.or_eq_true, not_or, Bool.not_eq_true, Bool.not_eq_true] at hnew
          exact hnew.2
        · exact ih ((t.track e.path e.signature).count time) hc
  unfold settle at hc
  split at hc
  · split at hc
    · cases hc
    · exact hdiscover _ _ hc
  · exact happly _ hc
  · exact happly _ hc

end WatchTable

/-! ## 4. Steps and runs -/

/-- Whether an action leaves a disk on which everything has a name that a file can have. -/
def WatchAction.KeepsNames : WatchAction → Prop
  | .edit disk => disk.IsNamed
  | _ => True

/-- Whether a notice reports a change of a file. -/
def Notice.IsChangeOf (p : Path) : Notice → Prop
  | .event (.change c) => c.path.components = p.components
  | _ => False

theorem Notice.not_isChangeOf_of_isSilent {n : Notice} (h : n.isSilent = true) (p : Path) :
    ¬ n.IsChangeOf p := by
  cases n with
  | event e =>
    cases e with
    | change c => cases h
    | ready files => exact id
    | error message paths => exact id
  | added q => exact id
  | dropped q => exact id

namespace WatchState

variable {s s' : WatchState} {a : WatchAction} {log : List Notice} {p : Path}

/-- What holds of every state: the table is lawful, and an idle watcher watches nothing and has
nothing to look at. -/
structure Regular (s : WatchState) : Prop where
  lawful : s.watcher.table.Lawful
  idle : s.watcher.isWatching = false → s.due = [] ∧ s.watcher.table.IsBlank
  named : s.disk.IsNamed

theorem Step.regular (hstep : s.Step a s' log) (ha : a.KeepsNames) (h : s.Regular) :
    s'.Regular := by
  have hopen : ∀ {w : Watcher} {P : Prop}, w.isWatching = true → w.isWatching = false → P := by
    intro w P hwatching hidle
    rw [hwatching] at hidle
    cases hidle
  cases hstep with
  | stays _ _ => exact h
  | opens hwatch _ =>
    obtain ⟨-, htable, hpending, -, -⟩ := Watcher.watch_eq_ok hwatch
    refine ⟨?_, hopen ?_, h.named⟩
    · show WatchTable.Lawful _
      rw [htable]
      exact .opened _ h.named _ fun e => Watcher.seen_of_mem_filesAmong
    · rw [Watcher.isWatching, hpending]
      rfl
  | closes hdue => exact ⟨.of_empty rfl rfl, fun _ => ⟨hdue, WatchTable.isBlank_forget _⟩, h.named⟩
  | adds hwatching htable hpending _ =>
    refine ⟨?_, hopen ?_, h.named⟩
    · show WatchTable.Lawful _
      rw [htable]
      exact h.lawful.withFile _ _
    · rw [Watcher.isWatching, hpending]
      exact hwatching
  | drops hwatching => exact ⟨h.lawful.withoutFile _, hopen hwatching, h.named⟩
  | notes hdue =>
    rcases Watcher.notify_cases s.watcher _ _ _ with ⟨hsame, -⟩ | ⟨d, k, hpending, -, hnotify⟩
    · rw [hsame]
      exact h
    · rw [hnotify]
      exact ⟨h.lawful, hopen rfl, h.named⟩
  | drains hdue hpending => exact ⟨h.lawful, hopen rfl, h.named⟩
  | settles hdue =>
    refine ⟨h.lawful.settle h.named _ _, fun hidle => ?_, h.named⟩
    rw [(h.idle hidle).1] at hdue
    cases hdue
  | edits => exact ⟨h.lawful, h.idle, ha⟩

theorem regular_run {as : List WatchAction} (hrun : s.run? as = some (s', log))
    (has : ∀ a ∈ as, a.KeepsNames) (h : s.Regular) : s'.Regular := by
  induction as generalizing s log with
  | nil =>
    obtain ⟨rfl, -⟩ := Prod.mk.inj (Option.some.inj hrun)
    exact h
  | cons a as ih =>
    obtain ⟨mid, first, others, hact, hrest, -⟩ := run?_cons_eq_some_iff.mp hrun
    exact ih hrest (fun b hb => has b (List.mem_cons_of_mem _ hb))
      ((step_of_act? hact).regular (has a (List.mem_cons_self ..)) h)

/-- Whether an action lets a path in again: a call names it, or a session begins. -/
def Readmits (s : WatchState) (p : Path) : WatchAction → Prop
  | .watch backend paths => ∃ r, s.watcher.watch backend s.disk paths = .ok r
  | .addFile _ path => (Watcher.resolve s.disk path).components = p.components
  | _ => False

/-- Whether a path is kept out: it is excluded, or there is no session. -/
def Bars (s : WatchState) (p : Path) : Prop :=
  s.watcher.table.excluded.has p = true ∨ s.watcher.isWatching = false

/-- **A path that is kept out stays out and is not reported**, unless the step lets it in. -/
theorem Step.bars (hstep : s.Step a s' log) (h : s.Regular) (hbars : s.Bars p)
    (ha : ¬ s.Readmits p a) : s'.Bars p ∧ ∀ n ∈ log, ¬ n.IsChangeOf p := by
  have hquiet : ∀ {P : Prop}, P → P ∧ ∀ n ∈ ([] : List Notice), ¬ n.IsChangeOf p := fun hP =>
    ⟨hP, fun n hn => nomatch hn⟩
  cases hstep with
  | stays _ hlog => exact ⟨hbars, fun n hn => Notice.not_isChangeOf_of_isSilent (hlog n hn) p⟩
  | opens hwatch _ => exact absurd ⟨_, hwatch⟩ ha
  | closes _ => exact hquiet (.inr rfl)
  | @adds backend path w faults hwatching htable _ hfaults =>
    refine ⟨.inl ?_, fun n hn => ?_⟩
    · have hexcluded := hbars.resolve_right (by rw [hwatching]; exact Bool.noConfusion)
      dsimp only
      rw [htable, Watcher.excluded_withFile, PathTable.has_remove, hexcluded, Bool.and_true,
        Bool.not_eq_true', decide_eq_false_iff_not]
      exact fun hsame => ha hsame.symm
    · rcases List.mem_append.mp hn with hn | hn
      · unfold addedNotices at hn
        split at hn
        · rw [List.mem_singleton.mp hn]
          exact id
        · cases hn
      · exact Notice.not_isChangeOf_of_isSilent (hfaults n hn) p
  | drops hwatching =>
    refine ⟨.inl ?_, fun n hn => ?_⟩
    · have hexcluded := hbars.resolve_right (by rw [hwatching]; exact Bool.noConfusion)
      show (PathTable.put s.watcher.table.excluded _ ()).has p = true
      rw [PathTable.has_put, hexcluded, Bool.or_true]
    · rw [List.mem_singleton.mp hn]
      exact id
  | notes _ =>
    rcases Watcher.notify_cases s.watcher _ _ _ with ⟨hsame, -⟩ | ⟨d, k, hpending, -, hnotify⟩
    · rw [hsame]
      exact hquiet hbars
    · rw [hnotify]
      refine hquiet (hbars.imp_right fun hidle => ?_)
      rw [Watcher.isWatching, hpending] at hidle
      cases hidle
  | drains _ hpending =>
    refine hquiet (hbars.imp_right fun hidle => ?_)
    rw [Watcher.isWatching, hpending] at hidle
    cases hidle
  | settles hdue =>
    -- an idle watcher has nothing to look at
    have hexcluded := hbars.resolve_right fun hidle => by
      rw [(h.idle hidle).1] at hdue
      cases hdue
    refine ⟨.inl ?_, fun n hn hchange => ?_⟩
    · dsimp only
      rw [WatchTable.excluded_settle]
      exact hexcluded
    · obtain ⟨c, hc, rfl⟩ := List.mem_map.mp hn
      have hfree := WatchTable.excluded_of_mem_settle h.lawful hc
      rw [PathTable.has_congr _ hchange, hexcluded] at hfree
      cases hfree
  | edits => exact hquiet hbars

/-- Whether no action of a run lets a path in: none begins a session or names the path. -/
def NeverReadmits (s : WatchState) (p : Path) (as : List WatchAction) : Prop :=
  ∀ before a after mid seen, as = before ++ a :: after → s.run? before = some (mid, seen) →
    ¬ mid.Readmits p a

theorem NeverReadmits.tail {mid : WatchState} {first : List Notice} {rest : List WatchAction}
    (h : s.NeverReadmits p (a :: rest)) (hact : s.act? a = some (mid, first)) :
    mid.NeverReadmits p rest := by
  intro before b after last seen hsplit hbefore
  exact h (a :: before) b after last (first ++ seen) (congrArg (a :: ·) hsplit)
    (run?_cons_eq_some_iff.mpr ⟨mid, first, seen, hact, hbefore, rfl⟩)

theorem bars_run {as : List WatchAction} (hrun : s.run? as = some (s', log))
    (has : ∀ a ∈ as, a.KeepsNames) (h : s.Regular) (hbars : s.Bars p)
    (hout : s.NeverReadmits p as) : s'.Bars p ∧ ∀ n ∈ log, ¬ n.IsChangeOf p := by
  induction as generalizing s log with
  | nil =>
    obtain ⟨rfl, rfl⟩ := Prod.mk.inj (Option.some.inj hrun)
    exact ⟨hbars, fun n hn => nomatch hn⟩
  | cons a as ih =>
    obtain ⟨mid, first, others, hact, hrest, rfl⟩ := run?_cons_eq_some_iff.mp hrun
    have hstep := step_of_act? hact
    obtain ⟨hbars', hfirst⟩ := hstep.bars h hbars (hout [] a as s [] rfl rfl)
    obtain ⟨hlast, hothers⟩ := ih hrest (fun b hb => has b (List.mem_cons_of_mem _ hb))
      (hstep.regular (has a (List.mem_cons_self ..)) h) hbars' (hout.tail hact)
    refine ⟨hlast, fun n hn => ?_⟩
    rcases List.mem_append.mp hn with hn | hn
    · exact hfirst n hn
    · exact hothers n hn

/-- What is kept out is not tracked. -/
theorem Bars.notMem_files (hbars : s.Bars p) (h : s.Regular) :
    ∀ q ∈ s.watcher.table.files, q.components ≠ p.components := by
  intro q hq hsame
  have htracked := h.lawful.sound.keyed.has_of_mem_sortedPaths hq
  rw [PathTable.has_congr _ hsame] at htracked
  rcases hbars with hexcluded | hidle
  · rw [h.lawful.untracked p hexcluded] at htracked
    cases htracked
  · rw [(h.idle hidle).2.tracked] at htracked
    cases htracked

theorem regular_new {options : WatcherOptions} {w : Watcher} (hnew : Watcher.new options = .ok w)
    {disk : FileTree} (hdisk : disk.IsNamed) : Regular ⟨w, disk, []⟩ := by
  unfold Watcher.new at hnew
  split at hnew
  · obtain rfl := Except.ok.inj hnew
    exact ⟨.of_empty rfl rfl, fun _ => ⟨rfl, rfl, rfl, rfl, rfl⟩, hdisk⟩
  · cases hnew

/-- **A watch table is lawful, and a file that was dropped stays away.**  Whatever is done to a
watcher, its table is lawful, and while it is idle nothing is watched.  And after a call that
drops a file, until a call names the file again or a session begins, no change of the file is
reported and it is not among the watched files. -/
theorem lawful_and_dropped_stays_away {options : WatcherOptions} {w : Watcher}
    (hnew : Watcher.new options = .ok w) {disk : FileTree} (hdisk : disk.IsNamed)
    {as : List WatchAction} (has : ∀ a ∈ as, a.KeepsNames) {s : WatchState} {log : List Notice}
    (hrun : run? ⟨w, disk, []⟩ as = some (s, log)) :
    s.watcher.table.Lawful ∧ (s.watcher.isWatching = false → s.watcher.table.IsBlank) ∧
    ∀ path s₁ log₁, s.act? (.removeFile path) = some (s₁, log₁) →
      ∀ later s₂ log₂, s₁.run? later = some (s₂, log₂) → (∀ a ∈ later, a.KeepsNames) →
        (∀ before a after mid seen, later = before ++ a :: after →
          s₁.run? before = some (mid, seen) → ¬ mid.Readmits (Watcher.resolve s.disk path) a) →
        (∀ n ∈ log₂, ¬ n.IsChangeOf (Watcher.resolve s.disk path)) ∧
        ∀ q ∈ s₂.watcher.table.files,
          q.components ≠ (Watcher.resolve s.disk path).components := by
  have hregular := regular_run hrun has (regular_new hnew hdisk)
  refine ⟨hregular.lawful, fun hidle => (hregular.idle hidle).2, ?_⟩
  intro path s₁ log₁ hdrop later s₂ log₂ hlater hnames hout
  have hregular₁ := (step_of_act? hdrop).regular trivial hregular
  have hbars : s₁.Bars (Watcher.resolve s.disk path) := by
    rw [act?] at hdrop
    cases hremove : s.watcher.removeFile s.disk path with
    | error fault =>
      rw [hremove] at hdrop
      obtain ⟨rfl, -⟩ := Prod.mk.inj (Option.some.inj hdrop)
      refine .inr ?_
      unfold Watcher.removeFile at hremove
      split at hremove
      · rename_i hidle
        simpa using hidle
      · cases hremove
    | ok answer =>
      obtain ⟨was, w'⟩ := answer
      rw [hremove] at hdrop
      obtain ⟨rfl, -⟩ := Prod.mk.inj (Option.some.inj hdrop)
      obtain ⟨-, rfl⟩ := Watcher.removeFile_eq_ok hremove
      refine .inl ?_
      show (PathTable.put s.watcher.table.excluded _ ()).has _ = true
      rw [PathTable.has_put]
      simp
  obtain ⟨hbars₂, hsilent⟩ := bars_run hlater hnames hregular₁ hbars hout
  exact ⟨hsilent, hbars₂.notMem_files (regular_run hlater hnames hregular₁)⟩

/-! ## 5. A file that is dropped while it waits

The file `/a` is watched, and a notification about it waits for quiet.  Then the file is dropped,
and it goes from the disk before it is looked at. -/

theorem isNamed_fullDisk : fullDisk.IsNamed := by
  have hname : (Component.name [97]).IsInner ∧ 0 ∉ ([97] : Bytes) ∧
      ([97] : Bytes).length ≤ FileTree.maxNameLength := by
    unfold Component.IsInner
    decide
  intro loc n hn name hmem
  rw [Table.get?_eq_some_iff, fullDisk] at hn
  obtain ⟨rfl, -⟩ := Prod.mk.inj (List.mem_singleton.mp hn)
  rw [List.mem_singleton.mp hmem]
  exact ⟨hname.1, hname.2.1, hname.2.2⟩

theorem isNamed_bareDisk : bareDisk.IsNamed := by
  intro loc n hn
  cases hn

theorem resolve_fullDisk : Watcher.resolve fullDisk sampleFile = sampleFile := by
  rw [Watcher.resolve, FileTree.canonical, find_fullDisk]
  rfl

/-- The watcher while the notification waits. -/
def sampleNotified : Watcher :=
  { sampleWatching with pending := some sampleWaiting }

theorem run_sampleNotified :
    run? ⟨sampleWatcher, fullDisk, []⟩
        [.watch sampleBackend [sampleFile], .notify .remove [sampleFile] 0] =
      some (⟨sampleNotified, fullDisk, []⟩, [.event (.ready 1)]) := by
  have hnotify : sampleWatching.notify .remove [sampleFile] 0 = sampleNotified := rfl
  simp only [run?, act?, watch_sampleFile, List.isEmpty_nil, if_true, hnotify, Option.bind_some,
    Option.map_some]
  rfl

/-- The watcher after the file was dropped. -/
def sampleDropped : Watcher :=
  { sampleNotified with table := Watcher.withoutFile sampleWatching.table sampleFile }

theorem act_sampleDropped : act? ⟨sampleNotified, fullDisk, []⟩ (.removeFile sampleFile) =
    some (⟨sampleDropped, fullDisk, []⟩, [.dropped sampleFile]) := by
  have hremove : sampleNotified.removeFile fullDisk sampleFile = .ok (true, sampleDropped) := by
    unfold Watcher.removeFile
    rw [resolve_fullDisk]
    rfl
  rw [act?, hremove, resolve_fullDisk]

/-- What happens after that. -/
def droppedActions : List WatchAction :=
  [.edit bareDisk, .drain 300, .settle ⟨0, 0⟩]

theorem run_droppedActions : run? ⟨sampleDropped, fullDisk, []⟩ droppedActions =
    some (⟨{ sampleDropped with pending := some (.new sampleOptions.debounce) }, bareDisk, []⟩,
      []) := by
  have hpending : sampleDropped.pending = some sampleWaiting := rfl
  have hsettle : sampleDropped.table.settle bareDisk ⟨0, 0⟩ sampleFile =
      ([], sampleDropped.table) := by
    rw [WatchTable.settle, look_bareDisk]
    rfl
  simp only [droppedActions, run?, act?, hpending, drain_sampleWaiting, List.map_cons, List.map_nil,
    hsettle, Option.bind_some, Option.map_some]
  rfl

/-- The file was watched, and its removal is not reported. -/
theorem lawful_and_dropped_stays_away_waiting :
    sampleNotified.table.Lawful ∧ sampleNotified.table.tracked.has sampleFile = true ∧
      ∃ s log, run? ⟨sampleDropped, fullDisk, []⟩ droppedActions = some (s, log) ∧
        (∀ n ∈ log, ¬ n.IsChangeOf sampleFile) ∧
        ∀ q ∈ s.watcher.table.files, q.components ≠ sampleFile.components := by
  have hnames : ∀ a ∈ droppedActions, a.KeepsNames := by
    intro a ha
    simp only [droppedActions, List.mem_cons, List.not_mem_nil, or_false] at ha
    rcases ha with rfl | rfl | rfl
    · exact isNamed_bareDisk
    · trivial
    · trivial
  obtain ⟨hlawful, -, hdropped⟩ := lawful_and_dropped_stays_away new_sampleOptions isNamed_fullDisk
    (fun a ha => by
      simp only [List.mem_cons, List.not_mem_nil, or_false] at ha
      rcases ha with rfl | rfl <;> trivial)
    run_sampleNotified
  have hlater := hdropped sampleFile _ _ act_sampleDropped droppedActions _ _ run_droppedActions
    hnames
    (by
      intro before a after mid seen hsplit _
      have ha : a ∈ droppedActions := hsplit ▸ List.mem_append_right _ (List.mem_cons_self ..)
      simp only [droppedActions, List.mem_cons, List.not_mem_nil, or_false] at ha
      rcases ha with rfl | rfl | rfl <;> exact id)
  rw [resolve_fullDisk] at hlater
  exact ⟨hlawful, rfl, _, _, run_droppedActions, hlater⟩

end WatchState
end AnalysisRunner
