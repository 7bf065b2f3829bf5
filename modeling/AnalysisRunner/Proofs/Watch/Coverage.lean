import AnalysisRunner.Proofs.Path.Parent
import AnalysisRunner.Proofs.Watch.Eligible
import AnalysisRunner.Proofs.Watch.Lawful

/-!
# No file is silently left without notifications

A watcher learns of changes from its backend, so every file that it watches must be covered by a
subscription: one to a watched directory with all that is below, or one to the directory that the
file is in.  A subscription may be refused, and then the watcher goes on, but it says so.

What was asked of the backend since the session began, and what was reported, is a
`WatchSession`.  It `Covers` a watcher if every watched directory was subscribed or reported, and
if for every named file outside of them the directory above was.  A directory is subscribed once,
so the set of subscribed directories has to be accounted for as well.

Whether a file is covered is asked in two ways, and both are safe.  When a session begins, the
directory above the file has to be in a watched directory; when a file is added later, the file
itself.  What is tracked without being named lies in a watched directory anyway
(`WatchTable.Entitled`).
-/

namespace AnalysisRunner

/-! ## 1. Sessions -/

/-- What was asked of the backend in a session, and what was reported. -/
structure WatchSession where
  calls : List BackendCall
  events : List WatchEvent

namespace WatchSession

variable {x y : WatchSession} {dir : Path}

/-- Whether the backend has agreed to notify about what is in a directory. -/
def Subscribes (x : WatchSession) (dir : Path) : Prop :=
  ∃ d, ∃ recursive, d.components = dir.components ∧ .subscribe d recursive true ∈ x.calls

/-- Whether the backend has agreed to notify about everything below a directory. -/
def SubscribesBelow (x : WatchSession) (root : Path) : Prop :=
  .subscribe root true true ∈ x.calls

/-- Whether the backend has refused a directory, and an error that names it was reported.  A
complaint that the backend makes of its own accord is no such report. -/
def Reports (x : WatchSession) (dir : Path) : Prop :=
  ∃ d, ∃ recursive message, d.components = dir.components ∧
    .subscribe d recursive false ∈ x.calls ∧ .error message [d] ∈ x.events

/-- Whether a session goes on from another one. -/
structure Continues (x y : WatchSession) : Prop where
  calls : x.calls ⊆ y.calls
  events : x.events ⊆ y.events

theorem Subscribes.mono (h : x.Subscribes dir) (hxy : x.Continues y) : y.Subscribes dir := by
  obtain ⟨d, recursive, hsame, hcall⟩ := h
  exact ⟨d, recursive, hsame, hxy.calls hcall⟩

theorem Reports.mono (h : x.Reports dir) (hxy : x.Continues y) : y.Reports dir := by
  obtain ⟨d, recursive, message, hsame, hcall, hevent⟩ := h
  exact ⟨d, recursive, message, hsame, hxy.calls hcall, hxy.events hevent⟩

/-- What was attended to, by a subscription or by a report, stays so. -/
theorem attended_mono (h : x.Subscribes dir ∨ x.Reports dir) (hxy : x.Continues y) :
    y.Subscribes dir ∨ y.Reports dir :=
  h.imp (fun hsub => hsub.mono hxy) fun hreport => hreport.mono hxy

theorem Subscribes.congr {dir' : Path} (h : x.Subscribes dir)
    (hsame : dir.components = dir'.components) :
    x.Subscribes dir' := by
  obtain ⟨d, recursive, hd, hcall⟩ := h
  exact ⟨d, recursive, hd.trans hsame, hcall⟩

theorem Reports.congr {dir' : Path} (h : x.Reports dir) (hsame : dir.components = dir'.components) :
    x.Reports dir' := by
  obtain ⟨d, recursive, message, hd, hcall, hevent⟩ := h
  exact ⟨d, recursive, message, hd.trans hsame, hcall, hevent⟩

/-- A session with what a reaction adds to it. -/
def plus (x : WatchSession) (r : Reaction) : WatchSession :=
  ⟨x.calls ++ r.calls, x.events ++ r.events⟩

theorem continues_plus (x : WatchSession) (r : Reaction) : x.Continues (x.plus r) :=
  ⟨List.subset_append_left _ _, List.subset_append_left _ _⟩

/-- **Whether a session leaves nothing uncovered in silence.** -/
structure Covers (x : WatchSession) (w : Watcher) : Prop where
  /-- Every watched directory was subscribed with all that is below it, or reported. -/
  roots : ∀ root ∈ w.table.roots, x.SubscribesBelow root ∨ x.Reports root
  /-- Every named file is in a watched directory, or the directory above it was subscribed or
  reported. -/
  named : ∀ p dir, w.table.explicit.has p = true → p.parent? = some dir →
    (∃ root ∈ w.table.roots, p.startsWith root = true) ∨ x.Subscribes dir ∨ x.Reports dir
  /-- What the watcher takes for subscribed was subscribed. -/
  subscribed : ∀ dir, w.subscribed.has dir = true → x.Subscribes dir

/-- Nothing has to be covered where nothing is watched. -/
theorem covers_of_isBlank {w : Watcher} (h : w.table.IsBlank) (hsubscribed : w.subscribed = .empty)
    (x : WatchSession) : x.Covers w := by
  refine ⟨fun root hroot => ?_, fun p dir hp => ?_, fun dir hdir => ?_⟩
  · rw [h.roots] at hroot
    cases hroot
  · rw [h.explicit] at hp
    cases hp
  · rw [hsubscribed] at hdir
    cases hdir

/-- A session goes on covering a watcher that has come to watch less. -/
theorem Covers.mono {w w' : Watcher} (h : x.Covers w) (hxy : x.Continues y)
    (hroots : w'.table.roots = w.table.roots)
    (hnamed : ∀ p, w'.table.explicit.has p = true → w.table.explicit.has p = true)
    (hsubscribed : w'.subscribed = w.subscribed) : y.Covers w' := by
  refine ⟨fun root hroot => ?_, fun p dir hp hdir => ?_, fun dir hdir => ?_⟩
  · rw [hroots] at hroot
    exact (h.roots root hroot).imp (fun hcall => hxy.calls hcall) fun hreport => hreport.mono hxy
  · rw [hroots]
    exact (h.named p dir (hnamed p hp) hdir).imp_right fun hattended => attended_mono hattended hxy
  · rw [hsubscribed] at hdir
    exact (h.subscribed dir hdir).mono hxy

end WatchSession

/-! ## 2. Subscribing -/

/-- Whether a reaction is a later stage of another one. -/
structure Reaction.Adds (r r' : Reaction) : Prop where
  calls : r.calls ⊆ r'.calls
  events : r.events ⊆ r'.events

theorem Reaction.Adds.plus {r r' : Reaction} (h : r.Adds r') (x : WatchSession) :
    (x.plus r).Continues (x.plus r') :=
  ⟨List.append_subset.mpr ⟨List.subset_append_left _ _,
      List.Subset.trans h.calls (List.subset_append_right _ _)⟩,
    List.append_subset.mpr ⟨List.subset_append_left _ _,
      List.Subset.trans h.events (List.subset_append_right _ _)⟩⟩

/-- Whether the directories that a reaction takes for subscribed were subscribed, in the session
before it or by its own calls. -/
def Reaction.Accounted (x : WatchSession) (r : Reaction) : Prop :=
  ∀ dir, r.watcher.subscribed.has dir = true → (x.plus r).Subscribes dir

namespace Watcher

variable {x : WatchSession} {r : Reaction} {dir : Path} {backend : Backend}

/-- What one attempt to subscribe does. -/
theorem subscribe_spec (backend : Backend) (recursive : Bool) (r : Reaction) (dir : Path) :
    r.Adds (subscribe backend recursive r dir) ∧
      (.subscribe dir recursive true ∈ (subscribe backend recursive r dir).calls ∧
          (subscribe backend recursive r dir).watcher.subscribed =
            PathSet.add r.watcher.subscribed dir ∨
        (.subscribe dir recursive false ∈ (subscribe backend recursive r dir).calls ∧
            ∃ message, .error message [dir] ∈ (subscribe backend recursive r dir).events) ∧
          (subscribe backend recursive r dir).watcher.subscribed = r.watcher.subscribed) := by
  unfold subscribe
  split
  · exact ⟨⟨List.subset_append_left _ _, List.Subset.refl _⟩, .inl ⟨by simp, rfl⟩⟩
  · rename_i fault _
    exact ⟨⟨List.subset_append_left _ _, List.subset_append_left _ _⟩,
      .inr ⟨⟨by simp, fault.text, by simp⟩, rfl⟩⟩

theorem accounted_subscribe (h : r.Accounted x) (recursive : Bool) (dir : Path) :
    (subscribe backend recursive r dir).Accounted x := by
  obtain ⟨hadds, ⟨hcall, hsubscribed⟩ | ⟨-, hsubscribed⟩⟩ := subscribe_spec backend recursive r dir
  · intro d hd
    rw [hsubscribed, PathSet.has_add] at hd
    rcases hd with hsame | hold
    · exact ⟨dir, recursive, hsame.symm, List.mem_append_right _ hcall⟩
    · exact (h d hold).mono (hadds.plus x)
  · intro d hd
    rw [hsubscribed] at hd
    exact (h d hd).mono (hadds.plus x)

/-- After an attempt to subscribe, the directory was subscribed or reported. -/
theorem attended_subscribe (x : WatchSession) (backend : Backend) (recursive : Bool) (r : Reaction)
    (dir : Path) :
    .subscribe dir recursive true ∈ (x.plus (subscribe backend recursive r dir)).calls ∨
      (x.plus (subscribe backend recursive r dir)).Reports dir := by
  obtain ⟨-, ⟨hcall, -⟩ | ⟨⟨hcall, message, hevent⟩, -⟩⟩ := subscribe_spec backend recursive r dir
  · exact .inl (List.mem_append_right _ hcall)
  · exact .inr ⟨dir, recursive, message, rfl, List.mem_append_right _ hcall,
      List.mem_append_right _ hevent⟩

theorem subscribeParent_spec (h : r.Accounted x) (backend : Backend) (isCovered : Path → Bool)
    (file : Path) :
    r.Adds (subscribeParent backend isCovered r file) ∧
      (subscribeParent backend isCovered r file).Accounted x ∧
      ∀ dir, file.parent? = some dir → isCovered dir = true ∨
        (x.plus (subscribeParent backend isCovered r file)).Subscribes dir ∨
        (x.plus (subscribeParent backend isCovered r file)).Reports dir := by
  have hself : r.Adds r := ⟨List.Subset.refl _, List.Subset.refl _⟩
  unfold subscribeParent
  cases hparent : file.parent? with
  | none => exact ⟨hself, h, fun dir hdir => nomatch hdir⟩
  | some above =>
    dsimp only
    split
    · rename_i hdone
      refine ⟨hself, h, ?_⟩
      rintro dir hdir
      obtain rfl := Option.some.inj hdir
      rcases Bool.or_eq_true_iff.mp hdone with hcovered | hsubscribed
      · exact .inl hcovered
      · exact .inr (.inl (h above hsubscribed))
    · refine ⟨(subscribe_spec backend false r above).1, accounted_subscribe h false above, ?_⟩
      rintro dir hdir
      obtain rfl := Option.some.inj hdir
      refine .inr ((attended_subscribe x backend false r above).imp_left fun hcall => ?_)
      exact ⟨above, false, rfl, hcall⟩

/-- **A loop of subscriptions**: what one pass settles is settled at the end. -/
theorem foldl_subscriptions {α : Type} {f : Reaction → α → Reaction} {Q : α → WatchSession → Prop}
    (hstep : ∀ r a, r.Accounted x → r.Adds (f r a) ∧ (f r a).Accounted x ∧ Q a (x.plus (f r a)))
    (hmono : ∀ {a y z}, WatchSession.Continues y z → Q a y → Q a z) (as : List α)
    (h : r.Accounted x) :
    r.Adds (as.foldl f r) ∧ (as.foldl f r).Accounted x ∧ ∀ a ∈ as, Q a (x.plus (as.foldl f r)) := by
  induction as generalizing r with
  | nil => exact ⟨⟨List.Subset.refl _, List.Subset.refl _⟩, h, fun a ha => nomatch ha⟩
  | cons a as ih =>
    obtain ⟨hadds, haccounted, hsettled⟩ := hstep r a h
    obtain ⟨hadds', haccounted', hrest⟩ := ih haccounted
    refine ⟨⟨List.Subset.trans hadds.calls hadds'.calls,
      List.Subset.trans hadds.events hadds'.events⟩, haccounted', ?_⟩
    intro b hb
    rcases List.mem_cons.mp hb with rfl | hb
    · exact hmono (hadds'.plus x) hsettled
    · exact hrest b hb

/-! ## 3. The calls -/

/-- Which directories and named files a session begins with. -/
theorem opened_spec (t : WatchTable) (roots : List Path) (scanned files : List WatchEntry) :
    (opened t roots scanned files).roots = roots ∧
      ∀ p, (opened t roots scanned files).explicit.has p = true →
        ∃ e ∈ files, e.path.components = p.components := by
  have hnamed : ∀ (files : List WatchEntry) (t : WatchTable),
      (files.foldl (fun t e => WatchTable.track
        { t with explicit := PathSet.add t.explicit e.path } e.path e.signature) t).roots =
          t.roots ∧
      ∀ p, (files.foldl (fun t e => WatchTable.track
        { t with explicit := PathSet.add t.explicit e.path } e.path e.signature) t).explicit.has p =
          true → t.explicit.has p = true ∨ ∃ e ∈ files, e.path.components = p.components := by
    intro files
    induction files with
    | nil => exact fun t => ⟨rfl, fun p hp => .inl hp⟩
    | cons e rest ih =>
      intro t
      obtain ⟨hroots, hexplicit⟩ := ih (WatchTable.track
        { t with explicit := PathSet.add t.explicit e.path } e.path e.signature)
      refine ⟨hroots, fun p hp => ?_⟩
      rcases hexplicit p hp with hput | ⟨e', he', hsame⟩
      · rcases (PathSet.has_add t.explicit e.path p).mp hput with hsame | hold
        · exact .inr ⟨e, List.mem_cons_self .., hsame.symm⟩
        · exact .inl hold
      · exact .inr ⟨e', List.mem_cons_of_mem _ he', hsame⟩
  rw [opened, foldl_track]
  obtain ⟨hroots, hexplicit⟩ := hnamed files _
  refine ⟨hroots, fun p hp => ?_⟩
  rcases hexplicit p hp with hempty | hfile
  · cases hempty
  · exact hfile

variable {w : Watcher} {disk : FileTree}

/-- **A session begins with everything covered.** -/
theorem covers_watch {paths : List Path} (h : w.watch backend disk paths = .ok r) :
    (WatchSession.plus ⟨[], []⟩ r).Covers r.watcher := by
  unfold watch at h
  split at h
  · cases h
  · cases hcall : w.bringUp backend with
    | error fault =>
      rw [hcall] at h
      cases h
    | ok call =>
      rw [hcall] at h
      obtain rfl := Except.ok.inj h
      have hfresh : Reaction.Accounted ⟨[], []⟩ ⟨{ w with subscribed := .empty }, [], [call]⟩ :=
        fun dir hdir => nomatch hdir
      obtain ⟨-, haccounted, hroots⟩ := foldl_subscriptions
        (f := subscribe backend true) (Q := fun root y => y.SubscribesBelow root ∨ y.Reports root)
        (fun r root hr => ⟨(subscribe_spec backend true r root).1, accounted_subscribe hr true root,
          attended_subscribe _ backend true r root⟩)
        (fun hyz hroot => hroot.imp (fun hcall => hyz.calls hcall) fun hreport => hreport.mono hyz)
        (rootsAmong disk paths) hfresh
      obtain ⟨hadds, haccounted, hfiles⟩ := foldl_subscriptions
        (f := fun r (e : WatchEntry) => subscribeParent backend
          (fun dir => (rootsAmong disk paths).any fun root => dir.startsWith root) r e.path)
        (Q := fun e y => ∀ dir, e.path.parent? = some dir →
          ((rootsAmong disk paths).any fun root => dir.startsWith root) = true ∨
            y.Subscribes dir ∨ y.Reports dir)
        (fun r e hr => subscribeParent_spec hr backend _ e.path)
        (fun hyz hfile dir hdir => (hfile dir hdir).imp_right fun hattended =>
          WatchSession.attended_mono hattended hyz)
        (filesAmong disk paths) haccounted
      obtain ⟨hopened, hexplicit⟩ := opened_spec w.table (rootsAmong disk paths)
        (scanAll disk w.table.filter (rootsAmong disk paths)) (filesAmong disk paths)
      -- that watching has begun is reported last
      have hready : ∀ {r' : Reaction} {w' : Watcher} {e : WatchEvent},
          (WatchSession.plus ⟨[], []⟩ r').Continues
            (WatchSession.plus ⟨[], []⟩ ⟨w', r'.events ++ [e], r'.calls⟩) := by
        intro r' w' e
        have hlast : r'.Adds ⟨w', r'.events ++ [e], r'.calls⟩ :=
          ⟨List.Subset.refl _, List.subset_append_left _ _⟩
        exact hlast.plus _
      refine ⟨fun root hroot => ?_, fun p dir hp hdir => ?_, fun dir hdir => ?_⟩
      · have hroot : root ∈ rootsAmong disk paths := hopened ▸ hroot
        refine (hroots root hroot).imp (fun hcall => ?_) fun hreport => ?_
        · exact hready.calls ((hadds.plus _).calls hcall)
        · exact (hreport.mono (hadds.plus _)).mono hready
      · obtain ⟨e, he, hsame⟩ := hexplicit p hp
        obtain ⟨above, habove, hsame'⟩ := Path.parent?_congr hsame hdir
        rcases hfiles e he above habove with hcovered | hsub | hreport
        · obtain ⟨root, hroot, hstarts⟩ := List.any_eq_true.mp hcovered
          refine .inl ⟨root, hopened.symm ▸ hroot, ?_⟩
          obtain ⟨c, -, hcomponents⟩ := Path.components_of_parent? hdir
          rw [Path.startsWith, List.isPrefixOf_iff_prefix, hsame'] at hstarts
          rw [Path.startsWith, List.isPrefixOf_iff_prefix, hcomponents]
          exact hstarts.trans (List.prefix_append ..)
        · exact .inr (.inl ((hsub.congr hsame').mono hready))
        · exact .inr (.inr ((hreport.congr hsame').mono hready))
      · exact (haccounted dir hdir).mono hready

/-- **A file that is added is covered, and the others stay so.** -/
theorem covers_addFile {p : Path} (hx : x.Covers w) (h : w.addFile backend disk p = .ok r) :
    (x.plus r).Covers r.watcher := by
  have htable := (addFile_eq_ok h).2.1
  unfold addFile at h
  split at h
  · cases h
  · obtain rfl := Except.ok.inj h
    have hold : Reaction.Accounted x
        ⟨{ w with
          table := withFile w.table (resolve disk p) (disk.look (resolve disk p)) }, [], []⟩ :=
      fun dir hdir => (hx.subscribed dir hdir).mono (x.continues_plus _)
    obtain ⟨-, haccounted, hattended⟩ := subscribeParent_spec hold backend
      (fun _ => ((withFile w.table (resolve disk p) (disk.look (resolve disk p))).rootFor
        (resolve disk p)).isSome) (resolve disk p)
    refine ⟨fun root hroot => ?_, fun q dir hq hdir => ?_, haccounted⟩
    · rw [htable, roots_withFile] at hroot
      exact (hx.roots root hroot).imp (fun hcall => (x.continues_plus _).calls hcall)
        fun hreport => hreport.mono (x.continues_plus _)
    · rw [htable, explicit_withFile, PathSet.has_add] at hq
      rw [htable, roots_withFile]
      rcases hq with hsame | hnamed
      · obtain ⟨above, habove, hsame'⟩ := Path.parent?_congr hsame.symm hdir
        rcases hattended above habove with hcovered | hsub | hreport
        · obtain ⟨root, hroot⟩ := Option.isSome_iff_exists.mp hcovered
          obtain ⟨hmem, hstarts⟩ := WatchTable.mem_of_rootFor hroot
          rw [roots_withFile] at hmem
          refine .inl ⟨root, hmem, ?_⟩
          rw [Path.startsWith, hsame]
          exact hstarts
        · exact .inr (.inl (hsub.congr hsame'))
        · exact .inr (.inr (hreport.congr hsame'))
      · exact (hx.named q dir hnamed hdir).imp_right fun hsettled =>
          WatchSession.attended_mono hsettled (x.continues_plus _)

end Watcher

/-! ## 4. Steps and runs -/

/-- The event that a notice is, if it is one. -/
def Notice.event? : Notice → Option WatchEvent
  | .event e => some e
  | _ => none

theorem filterMap_event?_map (events : List WatchEvent) :
    (events.map Notice.event).filterMap Notice.event? = events := by
  rw [List.filterMap_map]
  exact List.filterMap_some

namespace WatchState

variable {s s' : WatchState} {a : WatchAction} {log : List Notice} {x : WatchSession}

/-- What an action asks of the backend. -/
def asked (s : WatchState) : WatchAction → List BackendCall
  | .watch backend paths =>
    match s.watcher.watch backend s.disk paths with
    | .error _ => []
    | .ok r => r.calls
  | .addFile backend path =>
    match s.watcher.addFile backend s.disk path with
    | .error _ => []
    | .ok r => r.calls
  | _ => []

/-- Whether an action begins a session. -/
def begins (s : WatchState) : WatchAction → Bool
  | .watch backend paths => (s.watcher.watch backend s.disk paths).isOk
  | _ => false

/-- The session after an action: a new one, or the old one with what the action adds. -/
def sessionAfter (s : WatchState) (a : WatchAction) (log : List Notice) (x : WatchSession) :
    WatchSession :=
  let before : WatchSession := if s.begins a then ⟨[], []⟩ else x
  ⟨before.calls ++ s.asked a, before.events ++ log.filterMap Notice.event?⟩

/-- The session after several actions, as long as they are possible. -/
def session (s : WatchState) (x : WatchSession) : List WatchAction → WatchSession
  | [] => x
  | a :: rest =>
    match s.act? a with
    | none => x
    | some (s', log) => s'.session (s.sessionAfter a log x) rest

theorem continues_sessionAfter (h : s.begins a = false) (log : List Notice) (x : WatchSession) :
    x.Continues (s.sessionAfter a log x) := by
  unfold sessionAfter
  rw [h]
  exact ⟨List.subset_append_left _ _, List.subset_append_left _ _⟩

/-- **A step keeps everything covered.** -/
theorem covers_act (hact : s.act? a = some (s', log)) (h : x.Covers s.watcher) :
    (s.sessionAfter a log x).Covers s'.watcher := by
  have hsame : ∀ {w : Watcher}, s.begins a = false → s.watcher.table.SameScope w.table →
      w.subscribed = s.watcher.subscribed → (s.sessionAfter a log x).Covers w :=
    fun hbegins hscope hsubscribed => h.mono (continues_sessionAfter hbegins log x) hscope.1
      (fun p hp => hscope.2 ▸ hp) hsubscribed
  cases a with
  | watch backend paths =>
    rw [act?] at hact
    cases hwatch : s.watcher.watch backend s.disk paths with
    | error fault =>
      rw [hwatch] at hact
      obtain ⟨rfl, rfl⟩ := Prod.mk.inj (Option.some.inj hact)
      exact hsame (by rw [begins, hwatch]; rfl) ⟨rfl, rfl⟩ rfl
    | ok r =>
      rw [hwatch] at hact
      obtain ⟨rfl, rfl⟩ := Prod.mk.inj (Option.some.inj hact)
      have hbegins : s.begins (.watch backend paths) = true := by
        rw [begins, hwatch]
        rfl
      rw [sessionAfter, hbegins, asked, hwatch, filterMap_event?_map]
      exact Watcher.covers_watch hwatch
  | addFile backend path =>
    rw [act?] at hact
    cases hadd : s.watcher.addFile backend s.disk path with
    | error fault =>
      rw [hadd] at hact
      obtain ⟨rfl, rfl⟩ := Prod.mk.inj (Option.some.inj hact)
      exact hsame rfl ⟨rfl, rfl⟩ rfl
    | ok r =>
      rw [hadd] at hact
      obtain ⟨rfl, rfl⟩ := Prod.mk.inj (Option.some.inj hact)
      have hadded : ∀ (path : Path) (sight : Sight),
          (addedNotices path sight).filterMap Notice.event? = [] := by
        intro path sight
        cases sight <;> rfl
      rw [sessionAfter, asked, hadd, List.filterMap_append, hadded, filterMap_event?_map]
      exact Watcher.covers_addFile h hadd
  | close =>
    cases step_of_act? hact with
    | stays _ _ => exact hsame rfl ⟨rfl, rfl⟩ rfl
    | closes _ => exact WatchSession.covers_of_isBlank (WatchTable.isBlank_forget _) rfl _
  | removeFile path =>
    cases step_of_act? hact with
    | stays _ _ => exact hsame rfl ⟨rfl, rfl⟩ rfl
    | drops _ =>
      refine h.mono (continues_sessionAfter rfl _ x) rfl (fun p hp => ?_) rfl
      have hp : (s.watcher.table.explicit.remove (Watcher.resolve s.disk path)).has p = true := hp
      rw [PathTable.has_remove, Bool.and_eq_true] at hp
      exact hp.2
  | notify kind paths now =>
    cases step_of_act? hact with
    | stays _ _ => exact hsame rfl ⟨rfl, rfl⟩ rfl
    | notes _ =>
      rcases Watcher.notify_cases s.watcher kind paths now with ⟨hstill, -⟩ | ⟨d, k, -, -, hnotify⟩
      · rw [hstill]
        exact hsame rfl ⟨rfl, rfl⟩ rfl
      · rw [hnotify]
        exact hsame rfl ⟨rfl, rfl⟩ rfl
  | complain fault =>
    cases step_of_act? hact with
    | stays _ _ => exact hsame rfl ⟨rfl, rfl⟩ rfl
  | drain now =>
    cases step_of_act? hact with
    | stays _ _ => exact hsame rfl ⟨rfl, rfl⟩ rfl
    | drains _ _ => exact hsame rfl ⟨rfl, rfl⟩ rfl
  | settle time =>
    cases step_of_act? hact with
    | stays _ _ => exact hsame rfl ⟨rfl, rfl⟩ rfl
    | settles _ => exact hsame rfl (WatchTable.sameScope_settle ..) rfl
  | edit disk =>
    cases step_of_act? hact with
    | stays _ _ => exact hsame rfl ⟨rfl, rfl⟩ rfl
    | edits => exact hsame rfl ⟨rfl, rfl⟩ rfl

theorem covers_run {as : List WatchAction} (hrun : s.run? as = some (s', log))
    (h : x.Covers s.watcher) : (s.session x as).Covers s'.watcher := by
  induction as generalizing s log x with
  | nil =>
    obtain ⟨rfl, -⟩ := Prod.mk.inj (Option.some.inj hrun)
    exact h
  | cons a as ih =>
    obtain ⟨mid, first, others, hact, hrest, -⟩ := run?_cons_eq_some_iff.mp hrun
    rw [session, hact]
    exact ih hrest (covers_act hact h)

theorem covers_new {options : WatcherOptions} {w : Watcher} (hnew : Watcher.new options = .ok w)
    (x : WatchSession) : x.Covers w := by
  unfold Watcher.new at hnew
  split at hnew
  · obtain rfl := Except.ok.inj hnew
    exact WatchSession.covers_of_isBlank ⟨rfl, rfl, rfl, rfl⟩ rfl x
  · cases hnew

/-- What is tracked was named, or lies in a watched directory. -/
theorem Regular.named_or_below (h : s.Regular) {p : Path}
    (hp : s.watcher.table.tracked.has p = true) :
    s.watcher.table.explicit.has p = true ∨
      ∃ root ∈ s.watcher.table.roots, p.startsWith root = true := by
  obtain ⟨q, hsame, hnamed | ⟨root, hroot, hstarts, -⟩⟩ := h.lawful.entitled_of_has hp
  · exact .inl (PathTable.has_congr _ hsame ▸ hnamed)
  · refine .inr ⟨root, hroot, ?_⟩
    rw [Path.startsWith, ← hsame]
    exact hstarts

/-- **No file is silently left without notifications.**  Whatever is done to a watcher and
whatever its backend refuses, for every file that is named or tracked and has a directory above
it one of these holds in the session: it lies in a watched directory that was subscribed with all
that is below, or was refused and reported; or the directory above it was subscribed, or was
refused and reported. -/
theorem no_file_silently_uncovered {options : WatcherOptions} {w : Watcher}
    (hnew : Watcher.new options = .ok w) {disk : FileTree} (hdisk : disk.IsNamed)
    {as : List WatchAction} (has : ∀ a ∈ as, a.KeepsNames) {s : WatchState} {log : List Notice}
    (hrun : run? ⟨w, disk, []⟩ as = some (s, log)) {p dir : Path}
    (hp : s.watcher.table.explicit.has p = true ∨ s.watcher.table.tracked.has p = true)
    (hdir : p.parent? = some dir) :
    (∃ root ∈ s.watcher.table.roots, p.startsWith root = true ∧
        ((session ⟨w, disk, []⟩ ⟨[], []⟩ as).SubscribesBelow root ∨
          (session ⟨w, disk, []⟩ ⟨[], []⟩ as).Reports root)) ∨
      (session ⟨w, disk, []⟩ ⟨[], []⟩ as).Subscribes dir ∨
      (session ⟨w, disk, []⟩ ⟨[], []⟩ as).Reports dir := by
  have hcovers := covers_run hrun (covers_new hnew ⟨[], []⟩)
  have hbelow : (∃ root ∈ s.watcher.table.roots, p.startsWith root = true) →
      ∃ root ∈ s.watcher.table.roots, p.startsWith root = true ∧
        ((session ⟨w, disk, []⟩ ⟨[], []⟩ as).SubscribesBelow root ∨
          (session ⟨w, disk, []⟩ ⟨[], []⟩ as).Reports root) := by
    rintro ⟨root, hroot, hstarts⟩
    exact ⟨root, hroot, hstarts, hcovers.roots root hroot⟩
  have hscope : s.watcher.table.explicit.has p = true ∨
      ∃ root ∈ s.watcher.table.roots, p.startsWith root = true :=
    hp.elim .inl (regular_run hrun has (regular_new hnew hdisk)).named_or_below
  rcases hscope with hnamed | hroot
  · exact (hcovers.named p dir hnamed hdir).imp_left hbelow
  · exact .inl (hbelow hroot)

/-! ## 5. A file whose directory is refused

The file `/a` is watched, and the backend refuses `/`.  The session goes on, and the file is in no
watched directory and in no subscribed one. -/

/-- A backend that refuses every directory. -/
def deafBackend : Backend :=
  ⟨none, none, fun _ => some ⟨"no space left", []⟩⟩

/-- The watcher that watches the file all the same. -/
def deafWatching : Watcher :=
  { sampleWatching with subscribed := .empty }

theorem watch_deafBackend : sampleWatcher.watch deafBackend fullDisk [sampleFile] =
    .ok ⟨deafWatching, [.error "no space left" [.ofText "/"], .ready 1],
      [.native, .subscribe (.ofText "/") false false]⟩ := by
  have hcanonical : fullDisk.canonical sampleFile = .ok sampleFile := by
    rw [FileTree.canonical, find_fullDisk]
    rfl
  have hlook : fullDisk.look sampleFile = .file ⟨0, 1⟩ := by
    rw [FileTree.look, find_fullDisk]
    rfl
  rw [Watcher.watch]
  simp only [List.map_cons, List.map_nil, Watcher.classify, hcanonical, hlook]
  rfl

theorem run_deafBackend : run? ⟨sampleWatcher, fullDisk, []⟩ [.watch deafBackend [sampleFile]] =
    some (⟨deafWatching, fullDisk, []⟩,
      [.event (.error "no space left" [.ofText "/"]), .event (.ready 1)]) := by
  simp only [run?, act?, watch_deafBackend, Option.bind_some, Option.map_some]
  rfl

theorem session_deafBackend :
    session ⟨sampleWatcher, fullDisk, []⟩ ⟨[], []⟩ [.watch deafBackend [sampleFile]] =
      ⟨[.native, .subscribe (.ofText "/") false false],
        [.error "no space left" [.ofText "/"], .ready 1]⟩ := by
  simp only [session, act?, sessionAfter, begins, asked, watch_deafBackend]
  rfl

/-- The refusal was reported, because nothing else covers the file. -/
theorem no_file_silently_uncovered_refused :
    deafWatching.table.tracked.has sampleFile = true ∧
      sampleFile.parent? = some (.ofText "/") ∧ deafWatching.table.roots = [] ∧
      (session ⟨sampleWatcher, fullDisk, []⟩ ⟨[], []⟩ [.watch deafBackend [sampleFile]]).Reports
        (.ofText "/") := by
  have htracked : deafWatching.table.tracked.has sampleFile = true := by decide
  have hparent : sampleFile.parent? = some (.ofText "/") := by decide
  refine ⟨htracked, hparent, rfl, ?_⟩
  rcases no_file_silently_uncovered new_sampleOptions isNamed_fullDisk
    (by simp [WatchAction.KeepsNames]) run_deafBackend (.inr htracked) hparent with
    ⟨root, hroot, -⟩ | ⟨d, recursive, -, hcall⟩ | hreport
  · cases hroot
  · rw [session_deafBackend] at hcall
    simp at hcall
  · exact hreport

end WatchState
end AnalysisRunner
