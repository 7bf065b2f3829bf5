import AnalysisRunner.Proofs.Watch.Debounce
import AnalysisRunner.Proofs.Watch.Machine
import AnalysisRunner.Proofs.Watch.Scan

/-!
# Scanned and eligible files

A watcher that begins to watch a directory scans it, and later it goes by notifications.  A scan
leaves out directories that are ignored, while a notification about a file is judged by the
file alone (`WatchTable.isEligible`).  So on a disk without links the scan finds exactly the
eligible files that it reaches, and a notification makes the watcher track any eligible file
(`Watcher.scanned_iff_eligible_and_reached`).

The two agree if patterns are *inherited*: a pattern that covers a directory covers everything
in it.  Names are inherited (`Glob.IsName.isInherited`), because any name in a path may be
matched.  A pattern of several names is not; in the last section `lib/sub` is ignored, and there
is an eligible file in it.
-/

namespace AnalysisRunner

/-! ## 1. Patterns and what lies below -/

namespace Path

theorem stem_eq {names : List Bytes} (h : names ≠ []) :
    stem names = spelling (names.map .name) ++ [slash] := by
  obtain ⟨init, last, rfl⟩ := (List.eq_nil_or_concat' names).resolve_left h
  rw [spelling_append init (List.cons_ne_nil last [])]
  simp [stem, spelling, Component.bytes]

end Path

namespace Glob

variable {g : Glob} {names below : List Bytes}

/-- Whether a pattern matches a relative path or one of the names in it. -/
def covers (g : Glob) (names : List Bytes) : Bool :=
  g.isMatch (Path.spelling (names.map .name)) || names.any g.isMatch

/-- Whether a pattern that covers a directory covers everything in it. -/
def IsInherited (g : Glob) : Prop :=
  ∀ names below, names ≠ [] → g.covers names = true → g.covers (names ++ below) = true

/-- Whether a pattern is a name, each character standing for itself. -/
def IsName (g : Glob) : Prop :=
  ∃ cs : List Char, '/' ∉ cs ∧ g.parts = cs.map .literal

theorem stripBytes?_eq_some_iff {a s r : Bytes} : stripBytes? a s = some r ↔ s = a ++ r := by
  induction a generalizing s with
  | nil => simp [stripBytes?]
  | cons b a ih =>
    cases s with
    | nil => simp [stripBytes?]
    | cons c s =>
      rw [stripBytes?, List.cons_append, List.cons.injEq]
      split
      · rename_i hbc
        rw [ih]
        simp [hbc]
      · rename_i hbc
        simp [Ne.symm hbc]

theorem stripBytes?_append (a b s : Bytes) :
    stripBytes? (a ++ b) s = (stripBytes? a s).bind (stripBytes? b) := by
  apply Option.ext
  intro r
  simp only [Option.bind_eq_some_iff, stripBytes?_eq_some_iff]
  simp

theorem partsRests_literal (cs : List Char) (o : Option Bytes) :
    partsRests (cs.map .literal) o.toList =
      (o.bind (stripBytes? (cs.flatMap String.utf8EncodeChar))).toList := by
  have hdistinct : ∀ o : Option Bytes, distinct o.toList = o.toList := by
    intro o
    cases o <;> rfl
  induction cs generalizing o with
  | nil => cases o <;> rfl
  | cons c cs ih =>
    have hrests : o.toList.flatMap (partRests (.literal c)) =
        (o.bind (stripBytes? (String.utf8EncodeChar c))).toList := by
      cases o <;> simp [partRests]
    rw [List.map_cons, partsRests, hrests, hdistinct, ih, Option.bind_assoc, List.flatMap_cons,
      funext (stripBytes?_append _ _)]

/-- A name matches itself. -/
theorem isMatch_iff_of_literal {cs : List Char} (hparts : g.parts = cs.map .literal) (s : Bytes) :
    g.isMatch s = true ↔ s = cs.flatMap String.utf8EncodeChar := by
  have hname : isByName g.parts = false := by
    rw [hparts]
    cases cs <;> simp [isByName, isBaseName, isLiteral, Function.comp_def]
  have hmatch : g.isMatch s = (partsRests g.parts [s]).any List.isEmpty := by
    unfold isMatch
    split
    · rename_i hdeep
      rw [hparts] at hdeep
      cases cs <;> simp at hdeep
    · rw [hname]
      rfl
  rw [hmatch, hparts, show [s] = (some s).toList from rfl, partsRests_literal, Option.bind_some]
  cases hstrip : stripBytes? (cs.flatMap String.utf8EncodeChar) s with
  | none =>
    refine ⟨fun h => (nomatch h), fun hs => ?_⟩
    rw [stripBytes?_eq_some_iff.mpr (hs.trans (List.append_nil _).symm)] at hstrip
    cases hstrip
  | some r =>
    rw [stripBytes?_eq_some_iff] at hstrip
    simp [hstrip]

theorem slash_notMem_of_isName (h : g.IsName) {s : Bytes} (hs : g.isMatch s = true) :
    slash ∉ s := by
  obtain ⟨cs, hcs, hparts⟩ := h
  rw [(isMatch_iff_of_literal hparts s).mp hs, List.mem_flatMap]
  rintro ⟨c, hc, hslash⟩
  exact Bytes.slash_notMem_utf8EncodeChar (fun heq => hcs (heq ▸ hc)) hslash

/-- **Names are inherited**: a name that is ignored is ignored wherever it occurs in a path. -/
theorem IsName.isInherited (h : g.IsName) : g.IsInherited := by
  intro names below hne hcovers
  have hany : names.any g.isMatch = true := by
    rw [covers, Bool.or_eq_true] at hcovers
    refine hcovers.elim (fun hmatch => ?_) id
    obtain ⟨init, last, rfl⟩ := (List.eq_nil_or_concat' names).resolve_left hne
    have hslash := slash_notMem_of_isName h hmatch
    rw [Path.spelling_append init (List.cons_ne_nil last []), List.mem_append, not_or] at hslash
    by_cases hinit : init = []
    · rw [hinit] at hmatch ⊢
      simpa [Path.spelling, Component.bytes] using hmatch
    · exact absurd (by rw [Path.stem_eq hinit]; simp) hslash.1
  rw [covers, List.any_append, hany, Bool.true_or, Bool.or_true]

end Glob

namespace Filter

variable {f : Filter} {loc below : Location}

/-- What is below a watched directory is ignored if a pattern covers it. -/
theorem isIgnored_path (f : Filter) (hloc : loc.IsNamed)
    (hbelow : below.IsNamed) (hne : below ≠ []) :
    f.isIgnored (loc ++ below).path loc.path = f.ignored.any fun g => g.covers below := by
  have hcomponents : Path.components ⟨Path.spelling (below.map .name)⟩ = below.map .name := by
    refine Path.components_spelling ⟨[], below.map .name, rfl, .inl rfl, ?_⟩
    intro c hc
    obtain ⟨name, hname, rfl⟩ := List.mem_map.mp hc
    exact (hbelow name hname).inner
  rw [isIgnored, Location.strip?_path hloc hbelow hne, Option.getD_some, hcomponents, List.any_map,
    Bool.eq_iff_iff]
  simp only [isMatch, Glob.covers, Bool.or_eq_true, List.any_eq_true, Function.comp_apply,
    ignoresComponent]
  constructor
  · rintro (⟨g, hg, hmatch⟩ | ⟨name, hname, g, hg, hmatch⟩)
    · exact ⟨g, hg, .inl hmatch⟩
    · exact ⟨g, hg, .inr ⟨name, hname, hmatch⟩⟩
  · rintro ⟨g, hg, hmatch | ⟨name, hname, hmatch⟩⟩
    · exact .inl ⟨g, hg, hmatch⟩
    · exact .inr ⟨name, hname, g, hg, hmatch⟩

/-- If patterns are inherited, a scan reaches everything that is not ignored. -/
theorem reaches_of_isInherited (h : ∀ g ∈ f.ignored, g.IsInherited) (hloc : loc.IsNamed)
    (hbelow : below.IsNamed) (hne : below ≠ [])
    (hseen : f.isIgnored (loc ++ below).path loc.path = false) : f.Reaches loc.path loc below := by
  intro mid rest hsplit hmid hrest
  have hmid' : Location.IsNamed mid := fun name hname =>
    hbelow name (hsplit ▸ List.mem_append_left _ hname)
  rw [isIgnored_path f hloc hbelow hne, List.any_eq_false] at hseen
  rw [isIgnored_path f hloc hmid' hmid, List.any_eq_false]
  intro g hg hcovers
  exact hseen g hg (hsplit ▸ h g hg mid rest hmid hcovers)

end Filter

/-! ## 2. A notification about a file -/

namespace Watcher

variable {w : Watcher} {disk : FileTree} {p : Path}

theorem table_settleDue {d : Debouncer} (hpending : w.pending = some d)
    (time : Timestamp) (now : UInt64) :
    (w.settleDue disk time now).2.table =
      (w.table.settleAll disk time ((d.drain now).1.map Prod.fst)).2 := by
  rw [settleDue, hpending]

theorem isRelevant_of_isEligible {t : WatchTable} (h : t.isEligible p = true) :
    t.isRelevant p = true := by
  unfold WatchTable.isEligible Filter.accepts at h
  unfold WatchTable.isRelevant
  cases hroot : t.rootFor p <;> simp_all
  rcases h.2 with h | h <;> simp [h]

theorem has_apply_of_untracked {t : WatchTable} (hfree : t.tracked.has p = false) (time : Timestamp)
    (s : Signature) :
    (t.apply time p (some s)).2.tracked.has p = t.isEligible p := by
  have hnone : t.tracked.find? p = none := by
    rwa [PathTable.has_eq_isSome_find?, Option.isSome_eq_false_iff,
      Option.isNone_iff_eq_none] at hfree
  unfold WatchTable.apply
  split
  · rename_i hexcluded
    rw [hfree, WatchTable.isEligible, hexcluded]
    rfl
  · rw [hnone, Option.map_none]
    dsimp only
    split
    · rename_i heligible
      rw [heligible]
      show (t.tracked.put p _).has p = true
      rw [PathTable.has_put]
      simp
    · rename_i heligible
      rw [hfree, Bool.eq_false_iff.mpr heligible]

/-- **A notification about a file that is not tracked makes the watcher track it exactly if the
file is eligible.** -/
theorem has_settleDue_notify {delay : Duration} {kind : NotificationKind} {s : Signature}
    (hpending : w.pending = some (.new delay)) (hfree : w.table.tracked.has p = false)
    (hseen : disk.look p = .file s)
    (hkind : kind.change?.isSome = true) (now : UInt64) (time : Timestamp) :
    ((w.notify kind [p] now).settleDue disk time (now + delay.span)).2.table.tracked.has p =
      w.table.isEligible p := by
  rcases w.notify_cases kind [p] now with ⟨-, hnone | hnone⟩ | ⟨d, k, hd, -, hnotify⟩
  · rw [hpending] at hnone
    cases hnone
  · rw [hnone] at hkind
    cases hkind
  · obtain rfl := Option.some.inj (hpending.symm.trans hd)
    rw [hnotify, table_settleDue rfl]
    by_cases hrelevant : w.table.isRelevant p = true
    · rw [List.filter_cons_of_pos hrelevant, List.filter_nil, List.foldl_cons, List.foldl_nil,
        Debouncer.drain_record_new]
      show (w.table.settle disk time p).2.tracked.has p = _
      rw [WatchTable.settle, hseen]
      exact has_apply_of_untracked hfree time s
    · rw [List.filter_cons_of_neg hrelevant, List.filter_nil, List.foldl_nil, Debouncer.drain_new]
      show w.table.tracked.has p = _
      rw [hfree, eq_comm, Bool.eq_false_iff]
      exact fun heligible => hrelevant (isRelevant_of_isEligible heligible)

end Watcher

/-! ## 3. One watched directory -/

theorem WatchTable.isEligible_of_root {t : WatchTable} {root p : Path} (hroots : t.roots = [root])
    (hexplicit : t.explicit = .empty) (hexcluded : t.excluded = .empty)
    (hstarts : p.startsWith root = true) : t.isEligible p = t.filter.accepts p root := by
  have hroot : t.rootFor p = some root := by
    rw [rootFor, hroots, List.filter_cons_of_pos hstarts]
    rfl
  rw [isEligible, hroot, hexplicit, hexcluded]
  rfl

/-- Whether there is a file at a location. -/
def FileTree.IsFile (t : FileTree) (loc : Location) : Prop :=
  ∃ content modified, t.nodes.get? loc = some (.file content modified)

namespace Watcher

variable {w : Watcher} {disk : FileTree} {p : Path}
variable {backend : Backend} {r : Reaction} {loc : Location}

theorem foldl_track (entries : List WatchEntry) (t : WatchTable) :
    entries.foldl (fun t e => t.track e.path e.signature) t =
      { t with
        tracked :=
          entries.foldl (fun u e => PathTable.put u e.path ⟨e.path, e.signature⟩) t.tracked } := by
  induction entries generalizing t with
  | nil => rfl
  | cons e rest ih =>
    rw [List.foldl_cons, ih]
    rfl

theorem has_foldl_put (entries : List WatchEntry) (u : PathTable WatchEntry) (q : Path) :
    (entries.foldl (fun u e => PathTable.put u e.path ⟨e.path, e.signature⟩) u).has q = true ↔
      u.has q = true ∨ ∃ e ∈ entries, e.path.components = q.components := by
  induction entries generalizing u with
  | nil => simp
  | cons e rest ih =>
    rw [List.foldl_cons, ih, PathTable.has_put, Bool.or_eq_true, decide_eq_true_iff,
      List.exists_mem_cons_iff, eq_comm (a := q.components), or_comm (a := _ = _), or_assoc]

/-- **The table of a watched directory**: the directory is its only root, nothing is named or
excluded, and what the scan finds is tracked. -/
theorem table_watch_directory (hdisk : disk.IsLinkless)
    (hroot : disk.find p = .ok (loc, .directory))
    (hwatch : w.watch backend disk [p] = .ok r) :
    r.watcher.table = { w.table.forget with
      roots := [loc.path]
      tracked := (disk.scan w.table.filter loc.path loc.path).foldl
        (fun u e => PathTable.put u e.path ⟨e.path, e.signature⟩) .empty } := by
  have hlook : disk.look loc.path = .directory := by
    rw [FileTree.look, hdisk.find_path (hdisk.nodeAt?_of_find hroot)]
  have hclassify : classify disk p = ([loc.path], []) := by
    rw [classify, FileTree.canonical, hroot]
    simp only [hlook]
  rw [(watch_eq_ok hwatch).2.1, rootsAmong, filesAmong, List.map_cons, hclassify]
  show opened w.table [loc.path] (scanAll disk w.table.filter [loc.path]) [] = _
  rw [opened, scanAll, List.flatMap_singleton, foldl_track]
  rfl

/-- What is tracked are the accepted files below the directory that the scan reaches. -/
theorem has_watch_directory (hdisk : disk.IsLinkless) (hroot : disk.find p = .ok (loc, .directory))
    (hwatch : w.watch backend disk [p] = .ok r) (q : Path) :
    r.watcher.table.tracked.has q = true ↔
      ∃ below, below ≠ [] ∧ disk.IsFile (loc ++ below) ∧ w.table.filter.Reaches loc.path loc below ∧
        w.table.filter.accepts (loc ++ below).path loc.path = true ∧
        (loc ++ below).path.components = q.components := by
  rw [table_watch_directory hdisk hroot hwatch]
  dsimp only
  rw [has_foldl_put]
  constructor
  · rintro (hempty | ⟨e, he, hsame⟩)
    · cases hempty
    · obtain ⟨below, content, modified, hne, hfile, hreaches, haccepts, rfl⟩ :=
        (hdisk.mem_scan_iff (hdisk.nodeAt?_of_find hroot)).mp he
      exact ⟨below, hne, ⟨content, modified, hfile⟩, hreaches, haccepts, hsame⟩
  · rintro ⟨below, hne, ⟨content, modified, hfile⟩, hreaches, haccepts, hsame⟩
    refine .inr ⟨⟨(loc ++ below).path, some ⟨modified, content.length⟩⟩, ?_, hsame⟩
    exact (hdisk.mem_scan_iff (hdisk.nodeAt?_of_find hroot)).mpr
      ⟨below, content, modified, hne, hfile, hreaches, haccepts, rfl⟩

end Watcher

/-! ## 4. Agreement -/

namespace Watcher

/-- **A scan finds the eligible files that it reaches.** -/
theorem scanned_iff_eligible_and_reached {w : Watcher} {backend : Backend}
    {disk : FileTree} {p : Path}
    {loc : Location} {r : Reaction} (hdisk : disk.IsLinkless)
    (hroot : disk.find p = .ok (loc, .directory)) (hwatch : w.watch backend disk [p] = .ok r) :
    (∀ q, r.watcher.table.tracked.has q = true →
      ∃ below, below ≠ [] ∧ disk.IsFile (loc ++ below) ∧
        (loc ++ below).path.components = q.components) ∧
    (∀ below, below ≠ [] → disk.IsFile (loc ++ below) →
      (r.watcher.table.tracked.has (loc ++ below).path = true ↔
        r.watcher.table.isEligible (loc ++ below).path = true ∧
          w.table.filter.Reaches loc.path loc below) ∧
      ∀ kind now time, kind.change?.isSome = true →
        ((notify { r.watcher with table := r.watcher.table.untrack (loc ++ below).path } kind
            [(loc ++ below).path] now).settleDue disk time
          (now + w.options.debounce.span)).2.table.tracked.has (loc ++ below).path =
            r.watcher.table.isEligible (loc ++ below).path) ∧
    ((∀ g ∈ w.table.filter.ignored, g.IsInherited) → ∀ below, below ≠ [] →
      disk.IsFile (loc ++ below) →
      r.watcher.table.tracked.has (loc ++ below).path =
        r.watcher.table.isEligible (loc ++ below).path) := by
  have htable := table_watch_directory hdisk hroot hwatch
  have hloc := hdisk.isNamed (hdisk.nodeAt?_of_find hroot)
  have hnamed : ∀ {below}, disk.IsFile (loc ++ below) → Location.IsNamed (loc ++ below) := by
    rintro below ⟨content, modified, hfile⟩
    exact hdisk.named hfile
  have hbelow : ∀ {below}, disk.IsFile (loc ++ below) → Location.IsNamed below :=
    fun hfile name hname => hnamed hfile name (List.mem_append_right _ hname)
  have heligible : ∀ {below}, disk.IsFile (loc ++ below) →
      r.watcher.table.isEligible (loc ++ below).path =
        w.table.filter.accepts (loc ++ below).path loc.path := by
    intro below hfile
    rw [htable]
    exact WatchTable.isEligible_of_root rfl rfl rfl (Location.startsWith_path hloc (hbelow hfile))
  have hscanned : ∀ {below}, below ≠ [] → disk.IsFile (loc ++ below) →
      (r.watcher.table.tracked.has (loc ++ below).path = true ↔
        r.watcher.table.isEligible (loc ++ below).path = true ∧
          w.table.filter.Reaches loc.path loc below) := by
    intro below hne hfile
    rw [has_watch_directory hdisk hroot hwatch, heligible hfile]
    constructor
    · rintro ⟨below', -, hfile', hreaches, haccepts, hsame⟩
      obtain rfl := List.append_cancel_left
        (Location.path_injective (hnamed hfile') (hnamed hfile) hsame)
      exact ⟨haccepts, hreaches⟩
    · rintro ⟨haccepts, hreaches⟩
      exact ⟨below, hne, hfile, hreaches, haccepts, rfl⟩
  refine ⟨?_, ?_, ?_⟩
  · intro q hq
    obtain ⟨below, hne, hfile, -, -, hsame⟩ := (has_watch_directory hdisk hroot hwatch q).mp hq
    exact ⟨below, hne, hfile, hsame⟩
  · intro below hne hfile
    refine ⟨hscanned hne hfile, ?_⟩
    intro kind now time hkind
    obtain ⟨content, modified, hnode⟩ := hfile
    have huntracked :
        (r.watcher.table.untrack (loc ++ below).path).tracked.has (loc ++ below).path = false := by
      rw [WatchTable.untrack, PathTable.has_remove]
      simp
    have hpending := (watch_eq_ok hwatch).2.2.1
    exact has_settleDue_notify
      (w := { r.watcher with table := r.watcher.table.untrack (loc ++ below).path })
      hpending huntracked (hdisk.look_path (by simp [hne]) hnode) hkind now time
  · intro hinherited below hne hfile
    rw [Bool.eq_iff_iff, hscanned hne hfile, and_iff_left_iff_imp, heligible hfile]
    intro haccepts
    refine Filter.reaches_of_isInherited hinherited hloc (hbelow hfile) hne ?_
    rw [Filter.accepts, Bool.and_eq_true] at haccepts
    simpa using haccepts.2

/-! ## 5. A directory that is ignored and a file in it that is not

The directories `/lib` and `/lib/sub` hold the file `/lib/sub/A.sol`, and `lib/sub` is ignored. -/

/-- The names on the way to the file. -/
def sampleNames : Location :=
  [Bytes.ofText "lib", Bytes.ofText "sub", Bytes.ofText "A.sol"]

def sampleDirectories : FileTree :=
  (FileTree.empty.put [Bytes.ofText "lib"] .directory).put
    [Bytes.ofText "lib", Bytes.ofText "sub"] .directory

def sampleTree : FileTree :=
  sampleDirectories.put sampleNames (.file [] 0)

def sampleSettings : WatcherOptions :=
  { WatcherOptions.standard with ignored := ["lib/sub"] }

def samplePattern : Glob :=
  ⟨"lib/sub".toList.map .literal⟩

def sampleIdle : Watcher :=
  ⟨sampleSettings, .new ⟨["sol"], [samplePattern]⟩, .empty, none⟩

theorem new_sampleSettings : new sampleSettings = .ok sampleIdle := rfl

theorem isFileName_sampleNames : ∀ name ∈ sampleNames, name.IsFileName := by
  have hname : ∀ name ∈ sampleNames, (Path.component? name = some (.name name) ∧ slash ∉ name) ∧
      0 ∉ name ∧ name.length ≤ FileTree.maxNameLength := by
    decide
  intro name hmem
  exact ⟨(hname name hmem).1, (hname name hmem).2.1, (hname name hmem).2.2⟩

theorem isLinkless_sampleTree : sampleTree.IsLinkless := by
  have hlib : (FileTree.empty.put ([] ++ [Bytes.ofText "lib"]) .directory).IsLinkless :=
    FileTree.IsLinkless.empty.put rfl (isFileName_sampleNames _ (by decide)) rfl (by simp)
  have hsub :
      (FileTree.put _ ([Bytes.ofText "lib"] ++ [Bytes.ofText "sub"]) .directory).IsLinkless :=
    hlib.put rfl (isFileName_sampleNames _ (by decide)) rfl (by simp)
  have hfile : (FileTree.put _ ([Bytes.ofText "lib", Bytes.ofText "sub"] ++ [Bytes.ofText "A.sol"])
      (.file [] 0)).IsLinkless :=
    hsub.put rfl (isFileName_sampleNames _ (by decide)) rfl (by simp)
  exact hfile

theorem covers_samplePattern (names : List Bytes) : samplePattern.covers names = true ↔
    Path.spelling (names.map .name) = Bytes.ofText "lib/sub" ∨ Bytes.ofText "lib/sub" ∈ names := by
  have hmatch : ∀ s, samplePattern.isMatch s = true ↔ s = Bytes.ofText "lib/sub" :=
    Glob.isMatch_iff_of_literal rfl
  simp [Glob.covers, hmatch]

theorem isIgnored_samplePattern {names : Location} (hnamed : names.IsNamed) (hne : names ≠ []) :
    Filter.isIgnored ⟨["sol"], [samplePattern]⟩ names.path (Location.path []) =
      samplePattern.covers names := by
  have hroot : Location.IsNamed [] := fun name hname => nomatch hname
  have hignored := Filter.isIgnored_path ⟨["sol"], [samplePattern]⟩ hroot hnamed hne
  simpa using hignored

/-- The directory is ignored, so the scan does not reach the file. -/
theorem not_reaches_sampleNames :
    ¬ Filter.Reaches ⟨["sol"], [samplePattern]⟩ (Location.path []) [] sampleNames := by
  intro hreaches
  have hnamed : Location.IsNamed [Bytes.ofText "lib", Bytes.ofText "sub"] := fun name hname =>
    isFileName_sampleNames name (List.mem_append_left [Bytes.ofText "A.sol"] hname)
  have hseen := hreaches [Bytes.ofText "lib", Bytes.ofText "sub"] [Bytes.ofText "A.sol"] rfl
    (List.cons_ne_nil _ _) (List.cons_ne_nil _ _)
  rw [List.nil_append, isIgnored_samplePattern hnamed (List.cons_ne_nil _ _),
    (covers_samplePattern _).mpr (.inl (by decide))] at hseen
  cases hseen

/-- The file itself is accepted. -/
theorem accepts_sampleNames :
    Filter.accepts ⟨["sol"], [samplePattern]⟩ sampleNames.path (Location.path []) = true := by
  have hcovers : samplePattern.covers sampleNames = false := by
    rw [Bool.eq_false_iff, Ne, covers_samplePattern]
    decide
  rw [Filter.accepts,
    isIgnored_samplePattern isFileName_sampleNames (List.cons_ne_nil _ _), hcovers]
  decide

/-- The file is eligible, and the scan does not find it. -/
theorem scanned_iff_eligible_and_reached_pruned :
    new sampleSettings = .ok sampleIdle ∧
      ∃ r, sampleIdle.watch ⟨none, none, fun _ => none⟩ sampleTree [.ofText "/"] = .ok r ∧
        r.watcher.table.isEligible sampleNames.path = true ∧
        r.watcher.table.tracked.has sampleNames.path = false := by
  have hroot : sampleTree.find (.ofText "/") = .ok ([], .directory) :=
    isLinkless_sampleTree.find_path (show sampleTree.nodeAt? [] = some .directory from rfl)
  have hwatch : sampleIdle.watch ⟨none, none, fun _ => none⟩ sampleTree [.ofText "/"] = .ok _ := rfl
  obtain ⟨-, hfiles, -⟩ := scanned_iff_eligible_and_reached isLinkless_sampleTree hroot hwatch
  obtain ⟨hscanned, -⟩ := hfiles sampleNames (List.cons_ne_nil _ _) ⟨[], 0, rfl⟩
  refine ⟨new_sampleSettings, _, hwatch, ?_, Bool.eq_false_iff.mpr fun htracked => ?_⟩
  · rw [table_watch_directory isLinkless_sampleTree hroot hwatch]
    exact (WatchTable.isEligible_of_root rfl rfl rfl (by decide)).trans accepts_sampleNames
  · exact not_reaches_sampleNames (hscanned.mp htracked).2

end Watcher
end AnalysisRunner
