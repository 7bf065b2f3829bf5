import AnalysisRunner.Proofs.Watch.Lawful

/-!
# Files that are waited for

A call may name a file that is not there yet.  The path is then *kept*: as what it leads to, if it
leads somewhere, and else as it is spelled.  When the file appears, the backend notifies about it
under the path that it leads to then, which has no links and no dots and begins at the root.  So
whether the file is found is a question about two spellings.

If they name the same, a named file is relevant and eligible whatever the filter says, and the
watcher pursues it: as long as there is a file, it is tracked or waits from the notification on
(`WatchState.pursues_tracked`).  What is tracked then and was not at the time of the call has been
added in between, by a look or by another call (`Notice.adds_of_replay`).

If they name different paths, the call is no help.  The table treats the path that is notified
about as it did before (`WatchTable.treatsAlike_withFile`), and a file that no other call names is
tracked only if it lies in a watched directory and passes the filter.  A relative path is always
such a case, and so is one that leads through a link or has dots in it.
-/

namespace AnalysisRunner

/-! ## 1. The path that is kept -/

/-- A path that leads nowhere is kept as it is. -/
theorem Watcher.resolve_of_leads_eq_false {disk : FileTree} {p : Path} (h : disk.leads p = false) :
    resolve disk p = p := by
  unfold FileTree.leads at h
  unfold resolve FileTree.canonical
  cases hfind : disk.find p with
  | ok found =>
    rw [hfind] at h
    cases h
  | error fault => rfl

/-- What a path leads to begins at the root. -/
theorem FileTree.isAbsolute_of_canonical {disk : FileTree} {p q : Path}
    (h : disk.canonical p = .ok q) : q.isAbsolute = true := by
  unfold canonical at h
  split at h
  · obtain rfl := Except.ok.inj h
    exact Location.isAbsolute_path _
  · cases h

theorem Path.components_ne_of_isAbsolute {p q : Path} (hp : p.isAbsolute = false)
    (hq : q.isAbsolute = true) : p.components ≠ q.components := by
  intro hsame
  rw [isAbsolute_iff, ← hsame, ← isAbsolute_iff, hp] at hq
  cases hq

namespace WatchTable

variable {t : WatchTable} {p q : Path} {sight : Sight}

/-- Whether two tables treat a path alike: they track the same there, and agree on whether a
notification about it is relevant and whether a file there is eligible. -/
structure TreatsAlike (t t' : WatchTable) (p : Path) : Prop where
  tracked : t'.tracked.find? p = t.tracked.find? p
  relevant : t'.isRelevant p = t.isRelevant p
  eligible : t'.isEligible p = t.isEligible p

/-- **Naming a file makes no difference at any other path.** -/
theorem treatsAlike_withFile (t : WatchTable) (sight : Sight) (hne : q.components ≠ p.components) :
    t.TreatsAlike (Watcher.withFile t q sight) p := by
  have htracked : (Watcher.withFile t q sight).tracked.find? p = t.tracked.find? p := by
    cases sight with
    | missing => rfl
    | directory => rfl
    | file signature => exact (PathTable.find?_put ..).trans (if_neg (Ne.symm hne))
  have hexcluded : (Watcher.withFile t q sight).excluded.has p = t.excluded.has p := by
    rw [Watcher.excluded_withFile, PathTable.has_remove]
    simp [Ne.symm hne]
  have hexplicit : (Watcher.withFile t q sight).explicit.has p = t.explicit.has p := by
    rw [Watcher.explicit_withFile, Bool.eq_iff_iff, PathSet.has_add]
    simp [Ne.symm hne]
  have hroot : (Watcher.withFile t q sight).rootFor p = t.rootFor p := by
    cases sight <;> rfl
  have hfilter : (Watcher.withFile t q sight).filter = t.filter := by
    cases sight <;> rfl
  have hhas : (Watcher.withFile t q sight).tracked.has p = t.tracked.has p := by
    rw [PathTable.has_eq_isSome_find?, htracked, ← PathTable.has_eq_isSome_find?]
  refine ⟨htracked, ?_, ?_⟩
  · rw [isRelevant, isRelevant, hexcluded, hhas, hexplicit, hroot, hfilter]
  · rw [isEligible, isEligible, hexcluded, hexplicit, hroot, hfilter]

/-- Naming a file names it in every spelling. -/
theorem named_withFile (t : WatchTable) (sight : Sight) (hsame : q.components = p.components) :
    (Watcher.withFile t q sight).excluded.has p = false ∧
      (Watcher.withFile t q sight).explicit.has p = true := by
  rw [Watcher.excluded_withFile, Watcher.explicit_withFile, PathSet.has_add, PathTable.has_remove]
  simp [hsame]

/-- Naming a file that is not there tracks nothing. -/
theorem tracked_withFile (t : WatchTable) (q : Path) (h : ∀ signature, sight ≠ .file signature) :
    (Watcher.withFile t q sight).tracked = t.tracked := by
  cases sight with
  | missing => rfl
  | directory => rfl
  | file signature => exact absurd rfl (h signature)

/-- Where a table agrees that there is a file, it is tracked. -/
theorem Agrees.has {signature : Signature} (h : t.Agrees p (.file signature)) :
    t.tracked.has p = true := by
  rw [PathTable.has_eq_isSome_find?, ← Option.isSome_map, h]
  rfl

/-- What nobody has named and the filter accepts from no watched directory is not tracked. -/
theorem Lawful.untracked_of_refused (h : t.Lawful) (hunnamed : t.explicit.has p = false)
    (hrefused : ∀ q root, q.components = p.components → root ∈ t.roots →
      t.filter.accepts q root = false) : t.tracked.has p = false := by
  by_contra htracked
  rw [Bool.not_eq_false] at htracked
  obtain ⟨q, hq, hnamed | ⟨root, hroot, -, haccepts⟩⟩ := h.entitled_of_has htracked
  · rw [PathTable.has_congr _ hq, hunnamed] at hnamed
    cases hnamed
  · rw [hrefused q root hq hroot] at haccepts
    cases haccepts

end WatchTable

/-! ## 2. A file that is expected -/

/-- Whether an action neither ends watching nor takes the file at a path away; it may change the
file. -/
def WatchAction.LeavesFile (p : Path) : WatchAction → Prop
  | .close => False
  | .edit disk => ∃ signature, disk.look p = .file signature
  | _ => True

namespace WatchState

variable {s s' : WatchState} {a : WatchAction} {log : List Notice} {p : Path}

/-- Whether a file is expected at a path: the path is named and not excluded. -/
structure Expects (s : WatchState) (p : Path) : Prop where
  orderly : s.Orderly p.IsFileSpelling
  watching : s.watcher.isWatching = true
  included : s.watcher.table.excluded.has p = false
  named : s.watcher.table.explicit.has p = true

theorem Expects.minds (h : s.Expects p) : s.Minds p (s.disk.look p) :=
  ⟨h.watching, rfl, h.included, .inr (.inr h.named)⟩

theorem Step.expects (hstep : s.Step a s' log) (ha : a.Notifies p.IsFileSpelling)
    (hclose : a ≠ .close) (hkept : ∀ q, .dropped q ∈ log → q.components ≠ p.components)
    (h : s.Expects p) : s'.Expects p := by
  obtain ⟨hincluded, hnamed⟩ := hstep.admits h.watching hclose hkept
  exact ⟨hstep.orderly ha h.orderly, hstep.isWatching h.watching hclose, hincluded h.included,
    hnamed h.named⟩

/-- **A file that is expected is expected until a call drops it**, or watching ends. -/
theorem expects_run {as : List WatchAction} (hrun : s.run? as = some (s', log))
    (has : ∀ a ∈ as, a.Notifies p.IsFileSpelling) (hopen : .close ∉ as)
    (hkept : ∀ q, .dropped q ∈ log → q.components ≠ p.components) (h : s.Expects p) :
    s'.Expects p := by
  induction as generalizing s log with
  | nil =>
    obtain ⟨rfl, -⟩ := Prod.mk.inj (Option.some.inj hrun)
    exact h
  | cons a as ih =>
    obtain ⟨mid, first, others, hact, hrest, rfl⟩ := run?_cons_eq_some_iff.mp hrun
    obtain ⟨hclose, hopen⟩ := List.ne_and_not_mem_of_not_mem_cons hopen
    exact ih hrest (fun b hb => has b (List.mem_cons_of_mem _ hb)) hopen
      (fun q hq => hkept q (List.mem_append_right _ hq))
      ((step_of_act? hact).expects (has a (List.mem_cons_self ..)) hclose.symm
        (fun q hq => hkept q (List.mem_append_left _ hq)) h)

theorem Step.eq_of_edit {disk : FileTree} (hstep : s.Step (.edit disk) s' log) :
    s' = { s with disk } := by
  cases hstep with
  | stays ha _ => cases ha
  | edits => rfl

/-- **A file that is expected is pursued**: once its path has been named it is tracked or waits,
for as long as there is a file. -/
theorem pursues_tracked (p : Path) :
    Pursues p (fun a => a.LeavesFile p ∧ a.Notifies p.IsFileSpelling)
      (fun s => s.Expects p ∧ ∃ signature, s.disk.look p = .file signature)
      (fun s => s.watcher.table.tracked.has p = true) where
  keeps := by
    rintro s s' a log hstep ⟨hleaves, hnotifies⟩ hkept ⟨hexpects, signature, hseen⟩
    have hclose : a ≠ .close := by
      rintro rfl
      exact hleaves
    refine ⟨hstep.expects hnotifies hclose hkept hexpects, ?_⟩
    cases hstep with
    | edits => exact hleaves
    | _ => exact ⟨signature, hseen⟩
  heeds := by
    rintro s s' a log hstep ⟨hleaves, -⟩ hkept ⟨hexpects, signature, hseen⟩ hnamed
    have hp := FileTree.isDirectoryOnly_of_look hseen
    have hfile : s.disk.look p ≠ .directory := by
      rw [hseen]
      exact Sight.noConfusion
    by_cases hedit : ∃ disk, a = .edit disk
    · -- a change of the file changes nothing else
      obtain ⟨disk, rfl⟩ := hedit
      rw [hstep.eq_of_edit]
      exact .inl (hnamed.resolve_right id)
    · have ha : a.Spares p (s.disk.look p) := by
        cases a with
        | close => exact hleaves
        | edit disk => exact absurd ⟨disk, rfl⟩ hedit
        | _ => trivial
      have hfound : s'.watcher.table.Agrees p (s.disk.look p) →
          s'.watcher.table.tracked.has p = true := by
        rw [hseen]
        exact WatchTable.Agrees.has
      cases htracked : s.watcher.table.tracked.has p with
      | true =>
        refine .inl (.inl ?_)
        rcases (hstep.find? hexpects.orderly hexpects.minds hp hfile ha hkept).2 with
          hsame | hagrees
        · rwa [PathTable.has_eq_isSome_find?, hsame, ← PathTable.has_eq_isSome_find?]
        · exact hfound hagrees
      | false =>
        rw [htracked] at hnamed
        refine (hstep.heeds hexpects.orderly hexpects.minds hp hfile ha hkept ?_).imp_left
          (Or.imp_left hfound)
        exact hnamed.imp_left fun hnow => .inr (hnow.resolve_left Bool.false_ne_true)

end WatchState

/-! ## 3. Additions are reported -/

namespace Notice

/-- Whether a notice says that a path is tracked from now on. -/
def Adds (p : Path) : Notice → Prop
  | .event (.change c) => c.kind = .add ∧ c.path.components = p.components
  | .added q => q.components = p.components
  | _ => False

theorem has_of_has_take {set : PathSet} {n : Notice} {p : Path} (hn : ¬ n.Adds p)
    (hp : (n.take set).has p = true) : set.has p = true ∧ ¬ n.Removes p := by
  have hadd : ∀ q : Path, q.components ≠ p.components → (set.add q).has p = true →
      set.has p = true := fun q hq hp =>
    ((PathSet.has_add set q p).mp hp).resolve_left (Ne.symm hq)
  have hremove : ∀ q, (set.remove q).has p = true → set.has p = true ∧
      q.components ≠ p.components := by
    intro q hp
    rw [PathTable.has_remove, Bool.and_eq_true, Bool.not_eq_true', decide_eq_false_iff_not] at hp
    exact ⟨hp.2, Ne.symm hp.1⟩
  cases n with
  | event e =>
    cases e with
    | ready files => exact ⟨hp, id⟩
    | error message paths => exact ⟨hp, id⟩
    | change c =>
      obtain ⟨path, kind, time⟩ := c
      cases kind with
      | add => exact ⟨hadd path (fun hsame => hn ⟨rfl, hsame⟩) hp, fun h => nomatch h.1⟩
      | change => exact ⟨hp, fun h => nomatch h.1⟩
      | remove => exact ⟨(hremove path hp).1, fun h => (hremove path hp).2 h.2⟩
  | added q => exact ⟨hadd q hn hp, id⟩
  | dropped q => exact hremove q hp

/-- What is in the set in the end was added, or it was in the set all the time. -/
theorem adds_of_replay {set : PathSet} {log : List Notice} {p : Path}
    (h : (replay set log).has p = true) :
    (∃ n ∈ log, n.Adds p) ∨ set.has p = true ∧ ∀ n ∈ log, ¬ n.Removes p := by
  induction log generalizing set with
  | nil => exact .inr ⟨h, fun n hn => nomatch hn⟩
  | cons n rest ih =>
    by_cases hn : n.Adds p
    · exact .inl ⟨n, List.mem_cons_self .., hn⟩
    · rcases ih h with ⟨m, hm, hadds⟩ | ⟨hset, hrest⟩
      · exact .inl ⟨m, List.mem_cons_of_mem _ hm, hadds⟩
      · obtain ⟨hset, hremoves⟩ := has_of_has_take hn hset
        exact .inr ⟨hset, List.forall_mem_cons.mpr ⟨hremoves, hrest⟩⟩

end Notice

namespace WatchState

variable {s s' : WatchState} {a : WatchAction} {log : List Notice} {p : Path}

/-- **What is tracked after a run was reported as added, was added by a call, or has been tracked
all the time.** -/
theorem added_or_held_of_run {as : List WatchAction} (hrun : s.run? as = some (s', log))
    (hsound : s.watcher.table.Sound) (hwatching : s.watcher.isWatching = true)
    (hopen : .close ∉ as) (htracked : s'.watcher.table.tracked.has p = true) :
    (∃ change, .event (.change change) ∈ log ∧ change.kind = .add ∧
        change.path.components = p.components) ∨
      (∃ q, .added q ∈ log ∧ q.components = p.components) ∨
      s.watcher.table.tracked.has p = true ∧ ∀ n ∈ log, ¬ n.Removes p := by
  -- the log leads from the files that are tracked before the run to those after it
  have hset := s.watcher.table.samePaths_watchSet
  have hends := (tells_run hrun hsound hwatching hopen).leads _ hset
  rcases Notice.adds_of_replay ((hends.has_eq p).trans htracked) with
    ⟨n, hn, hadds⟩ | ⟨hheld, hstays⟩
  · cases n with
    | event e =>
      cases e with
      | change change => exact .inl ⟨change, hn, hadds⟩
      | ready files => exact hadds.elim
      | error message paths => exact hadds.elim
    | added q => exact .inr (.inl ⟨q, hn, hadds⟩)
    | dropped q => exact hadds.elim
  · exact .inr (.inr ⟨(hset.has_eq p).symm.trans hheld, hstays⟩)

/-! ## 4. Paths that nobody names -/

theorem Step.unnamed (hstep : s.Step a s' log) (ha : ¬ s.Readmits p a)
    (hp : s.watcher.table.explicit.has p = false) : s'.watcher.table.explicit.has p = false := by
  cases hstep with
  | stays _ _ => exact hp
  | opens hwatch _ => exact absurd ⟨_, hwatch⟩ ha
  | closes _ => rfl
  | adds _ htable _ _ =>
    dsimp only
    rw [htable, Watcher.explicit_withFile, ← Bool.not_eq_true, PathSet.has_add, hp]
    exact fun h => h.elim (fun hsame => ha hsame.symm) Bool.false_ne_true
  | drops _ =>
    show (PathTable.remove _ _).has p = false
    rw [PathTable.has_remove, hp, Bool.and_false]
  | notes _ =>
    rw [table_notify]
    exact hp
  | drains _ _ => exact hp
  | settles _ =>
    dsimp only
    rw [(WatchTable.sameScope_settle ..).2]
    exact hp
  | edits => exact hp

/-- **A path that nobody names is not named.** -/
theorem unnamed_run {as : List WatchAction} (hrun : s.run? as = some (s', log))
    (has : s.NeverReadmits p as) (hp : s.watcher.table.explicit.has p = false) :
    s'.watcher.table.explicit.has p = false := by
  induction as generalizing s log with
  | nil =>
    obtain ⟨rfl, -⟩ := Prod.mk.inj (Option.some.inj hrun)
    exact hp
  | cons a as ih =>
    obtain ⟨mid, first, others, hact, hrest, -⟩ := run?_cons_eq_some_iff.mp hrun
    exact ih hrest (has.tail hact) ((step_of_act? hact).unnamed (has [] a as s [] rfl rfl) hp)

/-! ## 5. Whether a file is found -/

/-- What a call that names a file does while files are watched. -/
theorem act?_addFile (hwatching : s.watcher.isWatching = true) {backend : Backend}
    (hcall : s.act? (.addFile backend p) = some (s', log)) :
    s'.watcher.table = Watcher.withFile s.watcher.table (Watcher.resolve s.disk p)
      (s.disk.look (Watcher.resolve s.disk p)) := by
  rw [act?] at hcall
  cases hadd : s.watcher.addFile backend s.disk p with
  | error fault =>
    unfold Watcher.addFile at hadd
    rw [hwatching, Bool.not_true, if_neg Bool.false_ne_true] at hadd
    cases hadd
  | ok r =>
    rw [hadd] at hcall
    obtain ⟨rfl, -⟩ := Prod.mk.inj (Option.some.inj hcall)
    exact (Watcher.addFile_eq_ok hadd).2.1

/-- **A file that was missing is found where its path was kept, and nowhere else.**  Files are
watched when a call names a path at which there is no file.  Later the path leads to a file, and
a notification comes that the file was created, under the path that it leads to.  From then on
there is a file, though it may change, and in the end nothing waits for it.  No call has dropped
the file, and the notification was not merged away.

A path that leads nowhere is kept as it is, and then a relative one is not kept as what it
leads to later.  If the path was kept as what it leads to, the file is tracked.  It is reported as
added after the call, or another call has named it when it was there, or it was tracked all the
time.  If not, the table treats the file as it did before the call, and unless someone
else has named it, it is not tracked if the filter accepts it from no watched directory. -/
theorem awaited_file_is_found_where_it_is_kept {options : WatcherOptions} {w : Watcher}
    (hnew : Watcher.new options = .ok w) {disk : FileTree} {earlier before after : List WatchAction}
    {s₀ s₁ s₂ s : WatchState} {log₀ call log₁ log₂ : List Notice}
    (hearlier : run? ⟨w, disk, []⟩ earlier = some (s₀, log₀))
    (hwatching : s₀.watcher.isWatching = true) {backend : Backend} {p c : Path}
    (hcall : s₀.act? (.addFile backend p) = some (s₁, call))
    (hmissing : ∀ signature, s₀.disk.look (Watcher.resolve s₀.disk p) ≠ .file signature)
    (hbefore : s₁.run? before = some (s₂, log₁)) (hopen : .close ∉ before)
    (hleads : s₂.disk.canonical p = .ok c) (hseen : ∃ signature, s₂.disk.look c = .file signature)
    {paths : List Path} {moment : UInt64} (hc : c ∈ paths)
    (hafter : s₂.run? (.notify .create paths moment :: after) = some (s, log₂))
    (hleaves : ∀ a ∈ after, a.LeavesFile c)
    (hspelled : ∀ a ∈ earlier ++ (before ++ .notify .create paths moment :: after),
      a.Notifies c.IsFileSpelling)
    (hkept : ∀ q, .dropped q ∈ log₁ ++ log₂ → q.components ≠ c.components) (hquiet : ¬ s.Waits c)
    (hmerged : ¬ s₂.MergedAway c (.notify .create paths moment :: after)) :
    let kept := Watcher.resolve s₀.disk p
    (s₀.disk.leads p = false →
      kept = p ∧ (p.isAbsolute = false → kept.components ≠ c.components)) ∧
    (kept.components = c.components →
      s.watcher.table.tracked.has c = true ∧
      ((∃ change, .event (.change change) ∈ log₁ ++ log₂ ∧ change.kind = .add ∧
          change.path.components = c.components) ∨
        (∃ q, .added q ∈ log₁ ++ log₂ ∧ q.components = c.components) ∨
        s₀.watcher.table.tracked.has c = true ∧ ∀ n ∈ log₁ ++ log₂, ¬ n.Removes c)) ∧
    (kept.components ≠ c.components →
      (∀ q, q.components = c.components →
        s₀.watcher.table.TreatsAlike s₁.watcher.table q) ∧
      (disk.IsNamed → (∀ a ∈ earlier ++ (before ++ after), a.KeepsNames) →
        s₀.watcher.table.explicit.has c = false →
        s₁.NeverReadmits c (before ++ .notify .create paths moment :: after) →
        (∀ q root, q.components = c.components → root ∈ s.watcher.table.roots →
          s.watcher.table.filter.accepts q root = false) →
        s.watcher.table.tracked.has c = false)) := by
  intro kept
  have htable : s₁.watcher.table = Watcher.withFile s₀.watcher.table kept (s₀.disk.look kept) :=
    act?_addFile hwatching hcall
  have hstep := step_of_act? hcall
  have horderly : s₁.Orderly c.IsFileSpelling := hstep.orderly trivial
    (orderly_run hearlier (fun a ha => hspelled a (List.mem_append_left _ ha))
      (orderly_new hnew disk _))
  have hwatching₁ : s₁.watcher.isWatching = true :=
    hstep.isWatching hwatching WatchAction.noConfusion
  have hlater : s₁.run? (before ++ .notify .create paths moment :: after) =
      some (s, log₁ ++ log₂) :=
    run?_append hbefore hafter
  refine ⟨fun hnowhere => ?_, fun hsame => ?_, fun hne => ⟨fun q hq => ?_, ?_⟩⟩
  · have hasis : kept = p := Watcher.resolve_of_leads_eq_false hnowhere
    refine ⟨hasis, fun hrelative => ?_⟩
    rw [hasis]
    exact Path.components_ne_of_isAbsolute hrelative (FileTree.isAbsolute_of_canonical hleads)
  · have hexpects : s₁.Expects c := by
      obtain ⟨hincluded, hnamed⟩ := WatchTable.named_withFile s₀.watcher.table
        (s₀.disk.look kept) hsame
      exact ⟨horderly, hwatching₁, htable ▸ hincluded, htable ▸ hnamed⟩
    have hexpects₂ : s₂.Expects c := expects_run hbefore
      (fun a ha => hspelled a (List.mem_append_right _ (List.mem_append_left _ ha))) hopen
      (fun q hq => hkept q (List.mem_append_left _ hq)) hexpects
    have hallowed : ∀ a ∈ WatchAction.notify .create paths moment :: after,
        a.LeavesFile c ∧ a.Notifies c.IsFileSpelling := fun a ha =>
      ⟨List.forall_mem_cons.mpr ⟨trivial, hleaves⟩ a ha,
        hspelled a (List.mem_append_right _ (List.mem_append_right _ ha))⟩
    have htracked : s.watcher.table.tracked.has c = true := by
      have hfound := ((pursues_tracked c).run hafter hallowed
        (fun q hq => hkept q (List.mem_append_right _ hq)) ⟨hexpects₂, hseen⟩).2
        (.inr ⟨_, List.mem_cons_self .., rfl, c, hc, rfl⟩)
      exact (hfound.resolve_right hmerged).resolve_right hquiet
    refine ⟨htracked, ?_⟩
    have hopen' : .close ∉ before ++ WatchAction.notify .create paths moment :: after := by
      intro hclose
      rcases List.mem_append.mp hclose with hclose | hclose
      · exact hopen hclose
      · exact (hallowed _ hclose).1
    have hreported := added_or_held_of_run hlater horderly.sound hwatching₁ hopen' htracked
    rwa [htable, WatchTable.tracked_withFile _ _ hmissing] at hreported
  · rw [htable]
    exact WatchTable.treatsAlike_withFile _ _ (hq ▸ hne)
  · intro hdisk hnames hunnamed hout hrefused
    have hregular : s.Regular := by
      refine regular_run hlater (fun a ha => ?_) (hstep.regular trivial
        (regular_run hearlier (fun a ha => hnames a (List.mem_append_left _ ha))
          (regular_new hnew hdisk)))
      rcases List.mem_append.mp ha with ha | ha
      · exact hnames a (List.mem_append_right _ (List.mem_append_left _ ha))
      · exact List.forall_mem_cons.mpr ⟨trivial, fun b hb =>
          hnames b (List.mem_append_right _ (List.mem_append_right _ hb))⟩ a ha
    have hunnamed₁ : s₁.watcher.table.explicit.has c = false := hstep.unnamed hne hunnamed
    exact hregular.lawful.untracked_of_refused (unnamed_run hlater hout hunnamed₁) hrefused

/-! ## 6. A file that appears

A session begins in which no directory is watched.  Then a call names the file `/a`, which is
missing, either so or as `a`; the two lead to the same place.  The file appears and is notified
about. -/

def looseFile : Path :=
  .ofText "a"

/-- The watcher at the beginning of the session. -/
def emptyWatching : Watcher :=
  { sampleWatcher with pending := some (.new sampleOptions.debounce) }

/-- The watcher that waits for a file, with the directory that is subscribed for that. -/
def awaiting (file dir : Path) : Watcher :=
  { emptyWatching with
    table := Watcher.withFile emptyWatching.table file .missing
    subscribed := PathSet.add .empty dir }

theorem run_emptyWatching : run? ⟨sampleWatcher, bareDisk, []⟩ [.watch sampleBackend []] =
    some (⟨emptyWatching, bareDisk, []⟩, [.event (.ready 0)]) := rfl

theorem find_looseFile :
    bareDisk.find looseFile = .error .notFound ∧
      fullDisk.find looseFile = .ok ([[97]], .file [120] 0) := by
  have hhops : looseFile.hops = [.down [97]] := by
    decide
  constructor <;> rw [FileTree.find, FileTree.resolve, hhops, FileTree.walk] <;> rfl

theorem find_bareDisk : bareDisk.find sampleFile = .error .notFound := by
  rw [FileTree.find, FileTree.resolve, hops_sampleFile, FileTree.walk]
  rfl

theorem look_fullDisk : fullDisk.look sampleFile = .file ⟨0, 1⟩ := by
  rw [FileTree.look, find_fullDisk]
  rfl

theorem act_awaiting {file dir : Path} (hfind : bareDisk.find file = .error .notFound)
    (hparent : file.parent? = some dir) :
    act? ⟨emptyWatching, bareDisk, []⟩ (.addFile sampleBackend file) =
      some (⟨awaiting file dir, bareDisk, []⟩, []) := by
  have hresolve : Watcher.resolve bareDisk file = file := by
    rw [Watcher.resolve, FileTree.canonical, hfind]
  have hlook : bareDisk.look file = .missing := by
    rw [FileTree.look, hfind]
  have hadd : emptyWatching.addFile sampleBackend bareDisk file =
      .ok ⟨awaiting file dir, [], [.subscribe dir false true]⟩ := by
    rw [Watcher.addFile, hresolve]
    dsimp only
    rw [hlook, Watcher.subscribeParent, hparent]
    rfl
  rw [act?, hadd, hresolve]
  dsimp only
  rw [hlook]
  rfl

/-- The looks after the file has appeared. -/
def appearedLooks : List WatchAction :=
  [.drain 300, .settle ⟨0, 0⟩]

theorem run_loose :
    run? ⟨awaiting looseFile ⟨[]⟩, fullDisk, []⟩ [.notify .create [sampleFile] 0] =
      some (⟨awaiting looseFile ⟨[]⟩, fullDisk, []⟩, []) := rfl

theorem run_awaiting :
    run? ⟨awaiting sampleFile (.ofText "/"), fullDisk, []⟩
        (.notify .create [sampleFile] 0 :: appearedLooks) =
      some (⟨{ awaiting sampleFile (.ofText "/") with
        table := (awaiting sampleFile (.ofText "/")).table.track sampleFile (some ⟨0, 1⟩) |>.count
          ⟨0, 0⟩ }, fullDisk, []⟩, [.event (.change ⟨sampleFile, .add, ⟨0, 0⟩⟩)]) := by
  have hnotify : (awaiting sampleFile (.ofText "/")).notify .create [sampleFile] 0 =
      { awaiting sampleFile (.ofText "/") with
        pending := some ((Debouncer.new sampleOptions.debounce).record sampleFile .add 0) } := rfl
  have hdrain : ((Debouncer.new sampleOptions.debounce).record sampleFile .add 0).drain 300 =
      ([(sampleFile, .add)], .new sampleOptions.debounce) :=
    Debouncer.drain_record_new sampleOptions.debounce sampleFile .add 0
  have hsettle : (awaiting sampleFile (.ofText "/")).table.settle fullDisk ⟨0, 0⟩ sampleFile =
      ([⟨sampleFile, .add, ⟨0, 0⟩⟩],
        (awaiting sampleFile (.ofText "/")).table.track sampleFile
          (some ⟨0, 1⟩) |>.count ⟨0, 0⟩) := by
    rw [WatchTable.settle, look_fullDisk]
    rfl
  simp only [appearedLooks, run?, act?, List.isEmpty_nil, if_true, hnotify, hdrain,
    List.map_cons, List.map_nil, hsettle, Option.bind_some, Option.map_some]
  rfl

theorem not_mergedAway_of_forall {as : List WatchAction}
    (h : ∀ paths now, .notify .remove paths now ∉ as) : ¬ s.MergedAway p as := by
  rintro ⟨earlier, paths, now, later, -, -, rfl, -⟩
  exact h paths now (List.mem_append_right _ (List.mem_cons_self ..))

/-- As `a` the file is not found, and as `/a` it is tracked and reported. -/
theorem awaited_file_is_found_where_it_is_kept_relative :
    fullDisk.canonical looseFile = .ok sampleFile ∧
      (∃ s log, run? ⟨awaiting looseFile ⟨[]⟩, fullDisk, []⟩ [.notify .create [sampleFile] 0] =
          some (s, log) ∧ s.watcher.table.tracked.has sampleFile = false) ∧
      ∃ s log, run? ⟨awaiting sampleFile (.ofText "/"), fullDisk, []⟩
          (.notify .create [sampleFile] 0 :: appearedLooks) = some (s, log) ∧
        s.watcher.table.tracked.has sampleFile = true ∧
        ∃ change, .event (.change change) ∈ log ∧ change.kind = .add ∧
          change.path.components = sampleFile.components := by
  have hspelling : sampleFile.IsFileSpelling sampleFile := ⟨by decide, fun _ => by decide⟩
  have hloose : fullDisk.canonical looseFile = .ok sampleFile := by
    rw [FileTree.canonical, find_looseFile.2]
    rfl
  have hfull : fullDisk.canonical sampleFile = .ok sampleFile := by
    rw [FileTree.canonical, find_fullDisk]
    rfl
  have hmissing : ∀ file, bareDisk.find file = .error .notFound → ∀ signature,
      bareDisk.look (Watcher.resolve bareDisk file) ≠ .file signature := by
    intro file hfind signature
    rw [Watcher.resolve, FileTree.canonical, hfind]
    dsimp only
    rw [FileTree.look, hfind]
    exact Sight.noConfusion
  have hquiet : ∀ w, w.pending = some (.new sampleOptions.debounce) →
      ¬ Waits ⟨w, fullDisk, []⟩ sampleFile := by
    rintro w hw (hpending | ⟨q, hq, -⟩)
    · rw [pendingKind?, hw] at hpending
      cases hpending
    · cases hq
  have hedit : ∀ w, run? ⟨w, bareDisk, []⟩ [.edit fullDisk] =
      some (⟨w, fullDisk, []⟩, []) := fun _ =>
    rfl
  refine ⟨hloose, ⟨_, _, run_loose, ?_⟩, ⟨_, _, run_awaiting, ?_⟩⟩
  · obtain ⟨hkept, -, hmissed⟩ := awaited_file_is_found_where_it_is_kept new_sampleOptions
      run_emptyWatching rfl (act_awaiting find_looseFile.1 (by decide))
        (hmissing _ find_looseFile.1)
      (hedit _) (by simp) hloose ⟨_, look_fullDisk⟩ (List.mem_singleton.mpr rfl) run_loose (by simp)
      (by simpa [WatchAction.Notifies] using hspelling) (by simp) (hquiet _ rfl)
      (not_mergedAway_of_forall (by simp))
    have hnowhere : bareDisk.leads looseFile = false := by
      rw [FileTree.leads, find_looseFile.1]
    refine (hmissed ((hkept hnowhere).2 (by decide))).2 isNamed_bareDisk ?_ rfl ?_ ?_
    · simpa [WatchAction.KeepsNames] using isNamed_fullDisk
    · intro before a after mid seen hsplit _
      have ha : a ∈ before ++ a :: after := List.mem_append_right _ (List.mem_cons_self ..)
      rw [← hsplit] at ha
      simp only [List.cons_append, List.nil_append, List.mem_cons, List.not_mem_nil, or_false] at ha
      rcases ha with rfl | rfl <;> exact id
    · intro q root _ hroot
      cases hroot
  · obtain ⟨-, hfound, -⟩ := awaited_file_is_found_where_it_is_kept new_sampleOptions
      run_emptyWatching rfl (act_awaiting find_bareDisk (by decide)) (hmissing _ find_bareDisk)
      (hedit _) (by simp) hfull ⟨_, look_fullDisk⟩ (List.mem_singleton.mpr rfl) run_awaiting
      (by simp [appearedLooks, WatchAction.LeavesFile])
      (by simpa [appearedLooks, WatchAction.Notifies] using hspelling) (by simp) (hquiet _ rfl)
      (not_mergedAway_of_forall (by simp [appearedLooks]))
    have hkept : Watcher.resolve bareDisk sampleFile = sampleFile := by
      rw [Watcher.resolve, FileTree.canonical, find_bareDisk]
    obtain ⟨htracked, hadded | ⟨q, hq, -⟩ | ⟨hheld, -⟩⟩ := hfound (by rw [hkept])
    · exact ⟨htracked, hadded⟩
    · simp at hq
    · cases hheld

end WatchState
end AnalysisRunner
