import Mathlib.Data.Set.Function
import AnalysisRunner.Proofs.Cache.Archived
import AnalysisRunner.Proofs.Engine.Reports
import AnalysisRunner.Proofs.Json.Reordered
import AnalysisRunner.Proofs.Path.Normal

/-!
# The cache does not show

Whatever an engine has done before, it finds in a file what an engine with an empty cache
finds in it.

For this the outcome of an analysis must not depend on anything that the cache does not look
at.  A `Law` says so: the verdict on a file is a function of the components of its path, of its
source and of the rule configuration up to the order of members; and the fingerprints of the
texts that occur tell these texts apart.  Engines that follow one law may exchange saved
caches, whatever their options are.

The invariant is about entries: the law *vouches* for an entry if some file, source and
configuration with its key and fingerprints lead to its result.  Then every file, source and
configuration that the entry is served for does (`verdict_of_vouches`).  A result that is put
in is vouched for because the pool gives every task its own outcome; nothing else is ever
added, except what was saved before (`Session.sound_of_reached`).
-/

namespace AnalysisRunner

/-! ## 1. Laws -/

/-- What the findings of all analyzers agree with. -/
structure Law where
  /-- The texts that occur as sources and as canonical texts of configurations. -/
  texts : Set String
  /-- Their fingerprints tell them apart. -/
  injOn : Set.InjOn Fingerprint.ofText texts
  /-- The outcome of the analysis of a source, if it is not given up. -/
  verdict : PathKey → String → Json → Option (Outcome Json)
  /-- The order of members in a configuration does not matter. -/
  verdict_reordered : ∀ {rules rules' : Json}, rules.Reordered rules' → ∀ key source,
    verdict key source rules = verdict key source rules'
  /-- Outputs can be saved. -/
  readsBack : ∀ {key source rules output}, verdict key source rules = some (.output output) →
    output.ReadsBack

namespace Law

/-- Whether an analyzer follows the law under a time limit. -/
def IsFollowed (law : Law) (analyzer : Analyzer) (timeout : Option Nat) : Prop :=
  ∀ rules path source, path.bytes.IsText →
    (analyzer rules path source).verdict timeout = law.verdict path.components source rules

/-- Whether a configuration may be used. -/
def Admits (law : Law) (rules : Json) : Prop :=
  rules.KeysDistinct ∧ Fingerprint.canonicalText rules ∈ law.texts

/-- Whether files may be analyzed. -/
def Covers (law : Law) (disk : FileTree) (paths : List Path) : Prop :=
  ∀ path ∈ paths, path.bytes.IsText ∧
    ∀ source, disk.readText path = .ok source → source ∈ law.texts

/-- The verdicts under a configuration. -/
def verdictUnder (law : Law) (rules : Json) (path : Path) (source : String) :
    Option (Outcome Json) :=
  law.verdict path.components source rules

/-- Whether a cached result is what the law says about some file, source and configuration
with its key and fingerprints. -/
def Vouches (law : Law) (e : Entry) : Prop :=
  ∃ path source rules, path.bytes.IsText ∧ source ∈ law.texts ∧ law.Admits rules ∧
    e.key = path.normal ∧ e.contentHash = Fingerprint.ofText source ∧
    e.configHash = Fingerprint.ofConfig rules ∧
    law.verdictUnder rules path source = some (.output e.result)

variable {law : Law}

/-- **A result that is vouched for is right wherever it fits.** -/
theorem verdict_of_vouches {e : Entry} (h : law.Vouches e) {path : Path} {source : String}
    {rules : Json} (hpath : path.bytes.IsText) (hsource : source ∈ law.texts)
    (hrules : law.Admits rules) (hkey : e.key = path.normal)
    (hcontent : e.contentHash = Fingerprint.ofText source)
    (hconfig : e.configHash = Fingerprint.ofConfig rules) :
    law.verdictUnder rules path source = some (.output e.result) := by
  obtain ⟨path', source', rules', hpath', hsource', hrules', hkey', hcontent',
    hconfig', hfound⟩ := h
  have hcomponents : path'.components = path.components :=
    (Path.normal_eq_iff hpath' hpath).mp (hkey'.symm.trans hkey)
  have hsame : source' = source := law.injOn hsource' hsource (hcontent'.symm.trans hcontent)
  have htext : Fingerprint.canonicalText rules' = Fingerprint.canonicalText rules :=
    law.injOn hrules'.2 hrules.2 (hconfig'.symm.trans hconfig)
  have hreordered := Json.reordered_of_canonicalText_eq hrules'.1 hrules.1 htext
  rw [← hfound, verdictUnder, verdictUnder, hcomponents, hsame]
  exact (law.verdict_reordered hreordered _ _).symm

end Law

/-! ## 2. One analysis -/

namespace Engine

variable {law : Law}

/-- What is planned for a file is right if the cache holds nothing but what the law vouches
for. -/
theorem isRight_of_planned {e : Engine} (h : e.cache.Holds law.Vouches)
    (hrules : law.Admits e.rules) {now : UInt64} {disk : FileTree} {path : Path} {plan : Plan}
    (hpath : path.bytes.IsText)
    (hsource : ∀ source, disk.readText path = .ok source → source ∈ law.texts)
    (hplanned : Planned e now disk path plan) :
    IsRight (law.verdictUnder e.rules) disk path plan := by
  cases hplanned with
  | unreadable read => exact .unreadable read
  | pending read missed => exact .pending read
  | known read found =>
    refine .known read ?_
    obtain ⟨entry, hentry, hcontent, hconfig, rfl, -⟩ := Cache.get_eq_some_iff.mp found
    obtain ⟨hkey, hvouches⟩ := h _ _ hentry
    exact Law.verdict_of_vouches hvouches hpath (hsource _ read) hrules hkey hcontent hconfig

/-- Plans are right, and planning adds nothing to the cache. -/
theorem isRight_plan {e : Engine} (h : e.cache.Holds law.Vouches) (hrules : law.Admits e.rules)
    (now : UInt64) {disk : FileTree} {paths : List Path} (hcovers : law.Covers disk paths) :
    (∀ x ∈ (e.plan now disk paths).1, IsRight (law.verdictUnder e.rules) disk x.1 x.2) ∧
      (e.plan now disk paths).2.cache.Holds law.Vouches := by
  constructor
  · intro x hx
    have hmem : x.1 ∈ paths := e.paths_plan now disk paths ▸ List.mem_map_of_mem hx
    obtain ⟨hpath, hsource⟩ := hcovers x.1 hmem
    exact isRight_of_planned h hrules hpath hsource (e.planned_plan now disk paths x hx)
  · intro k entry hentry
    exact h k entry ((e.sheds_plan now disk paths).kept k entry hentry)

/-- What an engine needs for its findings to be right. -/
structure Sound (law : Law) (e : Engine) : Prop where
  keepsOn : e.pool.stopOnError = false
  admits : law.Admits e.rules
  vouched : e.cache.Holds law.Vouches

/-- An analysis keeps the engine sound. -/
theorem Sound.analyze {e : Engine} (h : e.Sound law) {analyzer : Analyzer}
    (hanalyzer : law.IsFollowed analyzer e.pool.timeout) (now : UInt64) {disk : FileTree}
    {paths : List Path} (hcovers : law.Covers disk paths) :
    (e.analyze analyzer now disk paths).engine.Sound law := by
  obtain ⟨hright, hholds⟩ := isRight_plan h.vouched h.admits now hcovers
  obtain ⟨hpool, hrules⟩ := e.plan_frame now disk paths
  have hpaths := e.paths_plan now disk paths
  generalize hplan : e.plan now disk paths = planned at hright hholds hpool hrules hpaths
  obtain ⟨plans, e'⟩ := planned
  dsimp only at hright hholds hpool hrules hpaths
  have hengine : (e.analyze analyzer now disk paths).engine =
      (absorbFrom (e'.runTasks analyzer plans).1 now 0 e' plans).2 := by
    unfold Engine.analyze
    rw [hplan]
    rfl
  obtain ⟨hpool', hrules'⟩ := absorbFrom_frame (e'.runTasks analyzer plans).1 now 0 e' plans
  rw [hengine]
  refine ⟨by rw [hpool', hpool]; exact h.keepsOn, by rw [hrules', hrules]; exact h.admits,
    holds_absorbFrom hholds ?_⟩
  intro i path source output hget hresult
  have hx : (path, Plan.pending source) ∈ plans := List.mem_of_getElem? hget
  obtain ⟨hpath, hsource⟩ := hcovers path (hpaths ▸ List.mem_map_of_mem hx)
  have hread : disk.readText path = .ok source := by
    cases hright _ hx with
    | pending read => exact read
  -- an output is the verdict: a task that is given up fails
  have hverdict : law.verdictUnder e.rules path source = some (.output output) := by
    rw [Nat.zero_add, get?_runTasks (by rw [hpool]; exact h.keepsOn) hget] at hresult
    have houtcome := Option.some.inj hresult
    rw [Task.outcome, show (taskOf analyzer e'.rules path source i).run =
      analyzer e'.rules path source from rfl, hpool, hrules, hanalyzer _ _ _ hpath] at houtcome
    rw [Law.verdictUnder]
    cases hfound : law.verdict path.components source e.rules with
    | none =>
      rw [hfound] at houtcome
      cases houtcome
    | some o =>
      rw [hfound, Option.getD_some] at houtcome
      rw [houtcome]
  refine ⟨path, source, e.rules, hpath, hsource source hread, h.admits, rfl, rfl, ?_, hverdict⟩
  show e'.configHash = _
  rw [configHash, hrules]

/-- **A sound engine finds in every file what the law says.** -/
theorem Sound.findings_analyze {e : Engine} (h : e.Sound law) {analyzer : Analyzer}
    (hanalyzer : law.IsFollowed analyzer e.pool.timeout) (now : UInt64) {disk : FileTree}
    {paths : List Path} (hcovers : law.Covers disk paths) :
    (e.analyze analyzer now disk paths).report.findings =
      paths.zipIdx.map fun x =>
        due (law.verdictUnder e.rules) e.pool.timeout disk x.1 x.2 := by
  refine Engine.findings_analyze h.keepsOn ?_ (isRight_plan h.vouched h.admits now hcovers).1
  intro path hpath source
  exact hanalyzer _ _ _ (hcovers path hpath).1

theorem sound_new (cache : CacheOptions) {pool : PoolOptions} {rules : Json}
    (hstop : pool.stopOnError = false) (hrules : law.Admits rules) :
    (new cache pool rules).Sound law :=
  ⟨hstop, hrules, Cache.holds_new cache _⟩

/-! ## 3. Changes -/

theorem Sound.takeChange {e : Engine} (h : e.Sound law) (targets : List Path) (c : Change) :
    (takeChange (targets, e) c).2.Sound law := by
  unfold Engine.takeChange
  dsimp only
  split
  · exact ⟨h.keepsOn, h.admits, h.vouched.invalidate c.path⟩
  · exact h

theorem Sound.foldl_takeChange {e : Engine} (h : e.Sound law) (changes : List Change)
    (targets : List Path) : (changes.foldl Engine.takeChange (targets, e)).2.Sound law := by
  induction changes generalizing e targets with
  | nil => exact h
  | cons c rest ih => exact ih (h.takeChange targets c) _

/-- Changes touch neither the pool nor the rules, and which files they are about does not
depend on the engine. -/
theorem foldl_takeChange_frame (changes : List Change) (targets : List Path) (e e' : Engine) :
    (changes.foldl takeChange (targets, e)).2.pool = e.pool ∧
      (changes.foldl takeChange (targets, e)).2.rules = e.rules ∧
      (changes.foldl takeChange (targets, e)).1 = (changes.foldl takeChange (targets, e')).1 := by
  induction changes generalizing targets e e' with
  | nil => exact ⟨rfl, rfl, rfl⟩
  | cons c rest ih =>
    have hstep : (takeChange (targets, e) c).2.pool = e.pool ∧
        (takeChange (targets, e) c).2.rules = e.rules ∧
        (takeChange (targets, e) c).1 = (takeChange (targets, e') c).1 := by
      unfold takeChange
      dsimp only
      cases c.kind <;> exact ⟨rfl, rfl, rfl⟩
    obtain ⟨hpool, hrules, htargets⟩ := ih (takeChange (targets, e) c).1
      (takeChange (targets, e) c).2 (takeChange (targets, e') c).2
    refine ⟨hpool.trans hstep.1, hrules.trans hstep.2.1, htargets.trans ?_⟩
    rw [hstep.2.2]
    rfl

/-! ## 4. Calls -/

/-- A call that asks an engine for a report. -/
inductive Call where
  | analyze (paths : List Path)
  | changes (cs : List Change)

namespace Call

/-- What the call does. -/
def run (c : Call) (e : Engine) (analyzer : Analyzer) (now : UInt64) (disk : FileTree) :
    Analysis :=
  match c with
  | .analyze paths => e.analyze analyzer now disk paths
  | .changes cs => e.handleChanges analyzer now disk cs

/-- The engine that does the analysis: it has forgotten what is gone. -/
def prepared (c : Call) (e : Engine) : Engine :=
  match c with
  | .analyze _ => e
  | .changes cs => (cs.foldl takeChange ([], e)).2

/-- The files that the analysis is about. -/
def targets (c : Call) (e : Engine) : List Path :=
  match c with
  | .analyze paths => paths
  | .changes cs => (cs.foldl takeChange ([], e)).1

/-- Every call is an analysis, as far as the engine and the report go. -/
theorem run_eq (c : Call) (e : Engine) (analyzer : Analyzer) (now : UInt64) (disk : FileTree) :
    (c.run e analyzer now disk).engine =
        ((c.prepared e).analyze analyzer now disk (c.targets e)).engine ∧
      (c.run e analyzer now disk).report =
        ((c.prepared e).analyze analyzer now disk (c.targets e)).report := by
  cases c with
  | analyze paths => exact ⟨rfl, rfl⟩
  | changes cs =>
    unfold run handleChanges
    dsimp only
    split <;> exact ⟨rfl, rfl⟩

theorem prepared_frame (c : Call) (e : Engine) :
    (c.prepared e).pool = e.pool ∧ (c.prepared e).rules = e.rules := by
  cases c with
  | analyze paths => exact ⟨rfl, rfl⟩
  | changes cs =>
    obtain ⟨hpool, hrules, -⟩ := foldl_takeChange_frame cs [] e e
    exact ⟨hpool, hrules⟩

/-- What a call is about does not depend on the engine. -/
theorem targets_eq (c : Call) (e e' : Engine) : c.targets e = c.targets e' := by
  cases c with
  | analyze paths => rfl
  | changes cs => exact (foldl_takeChange_frame cs [] e e').2.2

variable {law : Law}

theorem sound_prepared {e : Engine} (h : e.Sound law) (c : Call) : (c.prepared e).Sound law := by
  cases c with
  | analyze paths => exact h
  | changes cs => exact h.foldl_takeChange cs []

theorem sound_run {e : Engine} (h : e.Sound law) {analyzer : Analyzer}
    (hanalyzer : law.IsFollowed analyzer e.pool.timeout) (now : UInt64) {disk : FileTree}
    {c : Call} (hcovers : law.Covers disk (c.targets e)) :
    (c.run e analyzer now disk).engine.Sound law := by
  rw [(c.run_eq e analyzer now disk).1]
  refine (sound_prepared h c).analyze ?_ now hcovers
  rw [(c.prepared_frame e).1]
  exact hanalyzer

theorem findings_run {e : Engine} (h : e.Sound law) {analyzer : Analyzer}
    (hanalyzer : law.IsFollowed analyzer e.pool.timeout) (now : UInt64) {disk : FileTree}
    {c : Call} (hcovers : law.Covers disk (c.targets e)) :
    (c.run e analyzer now disk).report.findings =
      (c.targets e).zipIdx.map fun x =>
        due (law.verdictUnder e.rules) e.pool.timeout disk x.1 x.2 := by
  obtain ⟨hpool, hrules⟩ := c.prepared_frame e
  rw [(c.run_eq e analyzer now disk).2, (sound_prepared h c).findings_analyze ?_ now hcovers,
    hpool, hrules]
  rw [hpool]
  exact hanalyzer

end Call

/-! ## 5. Sessions -/

/-- An engine at work, with the disk and the clock it works with. -/
structure Session where
  engine : Engine
  disk : FileTree
  now : UInt64

namespace Session

/-- The session after a call. -/
def after (s : Session) (analyzer : Analyzer) (c : Call) : Session :=
  { s with
    engine := (c.run s.engine analyzer s.now s.disk).engine
    disk := (c.run s.engine analyzer s.now s.disk).disk }

/-- The sessions that can come about under a law.  Before any call the files may have been
edited or deleted and the clock may have been moved, both in any way.  What is loaded was saved
by an engine of a session that came about under the same law, unless nothing can be read. -/
inductive Reached (law : Law) : Session → Prop
  | start (cache : CacheOptions) {pool : PoolOptions} {rules : Json} (disk : FileTree)
      (now : UInt64) (hstop : pool.stopOnError = false) (hrules : law.Admits rules) :
      Reached law ⟨.new cache pool rules, disk, now⟩
  | call {s : Session} (h : Reached law s) {analyzer : Analyzer} {c : Call}
      (hanalyzer : law.IsFollowed analyzer s.engine.pool.timeout)
      (hcovers : law.Covers s.disk (c.targets s.engine)) : Reached law (s.after analyzer c)
  | setRules {s : Session} (h : Reached law s) {rules : Json} (hrules : law.Admits rules) :
      Reached law { s with engine := s.engine.setRules rules }
  | load {s saver : Session} (h : Reached law s) (hsaver : Reached law saver)
      (hsaved : ∀ bytes,
        s.disk.read (Archive.entriesFile s.engine.cache.options.directory) = .ok bytes →
          bytes = Bytes.ofText (Archive.entriesText saver.engine.cache.sortedEntries)) :
      Reached law { s with engine := (s.engine.load s.now s.disk).2 }
  | edit {s : Session} (h : Reached law s) (disk : FileTree) : Reached law { s with disk }
  | clock {s : Session} (h : Reached law s) (now : UInt64) : Reached law { s with now }

variable {law : Law}

/-- A result that is vouched for can be saved. -/
theorem readsBack_of_vouches {e : Entry} (h : law.Vouches e) : e.result.ReadsBack := by
  obtain ⟨path, source, rules, -, -, -, -, -, -, hfound⟩ := h
  exact law.readsBack hfound

theorem sound_load {e saver : Engine} (h : e.Sound law) (hsaver : saver.Sound law) {now : UInt64}
    {disk : FileTree}
    (hsaved : ∀ bytes, disk.read (Archive.entriesFile e.cache.options.directory) = .ok bytes →
      bytes = Bytes.ofText (Archive.entriesText saver.cache.sortedEntries)) :
    (e.load now disk).2.Sound law := by
  refine ⟨h.keepsOn, h.admits, h.vouched.load now ?_ hsaved⟩
  intro entry hentry
  have hvouches := hsaver.vouched.of_mem_values (Cache.mem_sortedEntries.mp hentry)
  exact ⟨hvouches, readsBack_of_vouches hvouches⟩

/-- **Every engine that can come about is sound.** -/
theorem sound_of_reached {s : Session} (h : Reached law s) : s.engine.Sound law := by
  induction h with
  | start cache disk now hstop hrules => exact sound_new cache hstop hrules
  | call _ hanalyzer hcovers ih => exact Call.sound_run ih hanalyzer _ hcovers
  | setRules _ hrules ih => exact ⟨ih.keepsOn, hrules, ih.vouched⟩
  | load _ _ hsaved ih ihsaver => exact sound_load ih ihsaver hsaved
  | edit _ disk ih => exact ih
  | clock _ now ih => exact ih

/-- **The cache does not show.**  In every session that can come about, a call finds what the
same call of an engine with an empty cache finds, whatever the options of that cache, and it
finds in every file what the law says. -/
theorem findings_as_with_empty_cache {s : Session} (h : Reached law s) {analyzer : Analyzer}
    (hanalyzer : law.IsFollowed analyzer s.engine.pool.timeout) {c : Call}
    (hcovers : law.Covers s.disk (c.targets s.engine)) (options : CacheOptions) :
    (c.run s.engine analyzer s.now s.disk).report.findings =
        (c.run (.new options s.engine.pool s.engine.rules) analyzer s.now s.disk).report.findings ∧
      (c.run s.engine analyzer s.now s.disk).report.findings =
        (c.targets s.engine).zipIdx.map fun x =>
          due (law.verdictUnder s.engine.rules) s.engine.pool.timeout s.disk x.1 x.2 := by
  have hsound := sound_of_reached h
  have hempty := sound_new options hsound.keepsOn hsound.admits
  have hfindings := Call.findings_run hsound hanalyzer s.now hcovers
  refine ⟨?_, hfindings⟩
  rw [c.targets_eq s.engine (.new options s.engine.pool s.engine.rules)] at hcovers hfindings
  rw [hfindings, Call.findings_run hempty hanalyzer s.now hcovers]
  rfl

/-! ## 6. A session in which the cache is used

An engine analyzes `/a` and saves the result.  Another one has the same rules in another
order, loads what was saved at an earlier time, and is asked for `//a`. -/

/-- The rules, with two members in either order. -/
def sampleRules (k l : String) : Json :=
  .object [(k, .null), (l, .null)]

/-- Results are saved in `/c`. -/
def sampleCache : CacheOptions :=
  { CacheOptions.standard with directory := .ofText "/c", persistent := true }

/-- The file `/a` with an `x` in it, and what was saved. -/
def sampleDisk (saved : Bytes) : FileTree where
  nodes := ((Table.empty.insert [[97]] (.file [120] 0)).insert [[99]] .directory).insert
    [[99], Bytes.ofText "entries.json"] (.file saved 0)

/-- The analyzer that puts out the source. -/
def echo : Analyzer :=
  fun _ _ source => ⟨[], .value (.string source)⟩

/-- The law of `echo`. -/
def echoLaw : Law where
  texts := {"x", Fingerprint.canonicalText (sampleRules "a" "b")}
  injOn := Set.injOn_pair.mpr fun h => absurd h (by decide +kernel)
  verdict _ source _ := some (.output (.string source))
  verdict_reordered _ _ _ := rfl
  readsBack h := by
    rw [← Outcome.output.inj (Option.some.inj h), Json.readsBack_iff, Json.written,
      Json.ofWritten?, Written.glyphText?_map_char]
    rfl

theorem isFollowed_echo : echoLaw.IsFollowed echo none :=
  fun _ _ _ _ => rfl

theorem admits_sampleRules : echoLaw.Admits (sampleRules "a" "b") ∧
    echoLaw.Admits (sampleRules "b" "a") := by
  have hdistinct : ∀ k l, k ≠ l → (sampleRules k l).KeysDistinct := by
    intro k l hne
    simp [sampleRules, Json.KeysDistinct, Json.MembersKeysDistinct, hne]
  have htext : Fingerprint.canonicalText (sampleRules "b" "a") =
      Fingerprint.canonicalText (sampleRules "a" "b") := by
    decide +kernel
  exact ⟨⟨hdistinct _ _ (by decide), .inr rfl⟩, ⟨hdistinct _ _ (by decide), .inr htext⟩⟩

/-- Both spellings lead to the file. -/
theorem readText_sampleDisk (saved : Bytes) {p : Path} (hp : p = .ofText "/a" ∨ p = .ofText "//a") :
    (sampleDisk saved).readText p = .ok "x" := by
  have hhops : p.hops = [.down [97]] := by
    rcases hp with rfl | rfl <;> decide
  have hfind : (sampleDisk saved).find p = .ok ([[97]], .file [120] 0) := by
    rw [FileTree.find, FileTree.resolve, hhops, FileTree.walk]
    rcases hp with rfl | rfl <;> rfl
  rw [FileTree.readText, FileTree.read, hfind]
  rfl

theorem covers_sampleDisk (saved : Bytes) {p : Path} (hp : p = .ofText "/a" ∨ p = .ofText "//a") :
    echoLaw.Covers (sampleDisk saved) [p] := by
  intro path hpath
  obtain rfl := List.mem_singleton.mp hpath
  rw [readText_sampleDisk saved hp]
  refine ⟨?_, fun source hsource => .inl (Except.ok.inj hsource).symm⟩
  rcases hp with rfl | rfl <;> exact ⟨_, rfl⟩

/-- The session that saves, after its analysis. -/
def saver : Session :=
  after ⟨.new sampleCache .standard (sampleRules "a" "b"), sampleDisk [], 7⟩ echo
    (.analyze [.ofText "/a"])

/-- The entry that is saved. -/
def sampleEntry : Entry :=
  Cache.entryOf 7 (.ofText "/a") "x" (Fingerprint.ofConfig (sampleRules "a" "b")) (.string "x")

theorem sortedEntries_saver : saver.engine.cache.sortedEntries = [sampleEntry] := by
  have hvalues : saver.engine.cache.entries.values = [sampleEntry] := by
    simp only [saver, after, Call.run, analyze, plan, planFile, readText_sampleDisk [] (.inl rfl)]
    rfl
  rw [Cache.sortedEntries, hvalues, List.mergeSort_singleton]

/-- The disk with what is saved. -/
def savedDisk : FileTree :=
  sampleDisk (Bytes.ofText (Archive.entriesText [sampleEntry]))

theorem read_savedDisk : savedDisk.read (Archive.entriesFile (.ofText "/c")) =
    .ok (Bytes.ofText (Archive.entriesText [sampleEntry])) := by
  have hhops : (Archive.entriesFile (.ofText "/c")).hops =
      [.down [99], .down (Bytes.ofText "entries.json")] := by
    decide
  have hwalk : savedDisk.walk true FileTree.maxLinks []
      [.down [99], .down (Bytes.ofText "entries.json")] =
        .ok (.node [[99], Bytes.ofText "entries.json"]
          (.file (Bytes.ofText (Archive.entriesText [sampleEntry])) 0)) := by
    rw [FileTree.walk]
    show savedDisk.walk true FileTree.maxLinks [[99]] [.down (Bytes.ofText "entries.json")] = _
    rw [FileTree.walk]
    rfl
  rw [FileTree.read, FileTree.find, FileTree.resolve, if_neg (by decide), if_neg (by decide),
    hhops, Bool.true_or, if_pos (by decide), hwalk]
  rfl

/-- The session that loads. -/
def loader : Session where
  engine := (Engine.load (.new sampleCache .standard (sampleRules "b" "a")) 5 savedDisk).2
  disk := savedDisk
  now := 5

theorem reached_loader : Reached echoLaw loader := by
  have hsaver : Reached echoLaw saver :=
    .call (.start sampleCache (sampleDisk []) 7 rfl admits_sampleRules.1) isFollowed_echo
      (covers_sampleDisk [] (.inl rfl))
  refine .load (.start sampleCache savedDisk 5 rfl admits_sampleRules.2) hsaver ?_
  intro bytes hbytes
  rw [sortedEntries_saver]
  exact (Except.ok.inj (read_savedDisk.symm.trans hbytes)).symm

/-- The engine that has loaded holds the saved entry. -/
theorem engine_loader : loader.engine.cache.entries.get? "/a" = some sampleEntry ∧
    loader.engine.cache.options.lifetime = sampleCache.lifetime ∧
    loader.engine.pool = .standard ∧ loader.engine.rules = sampleRules "b" "a" := by
  have hread : Archive.readEntries sampleCache.directory savedDisk = .ok (some [sampleEntry]) := by
    refine Archive.readEntries_eq_ok_iff.mpr ⟨_, read_savedDisk, ?_⟩
    rw [Bytes.text?_ofText, Option.bind_some, Archive.entries?_entriesText, List.mapM_cons,
      Entry.ofWritten?_json]
    rfl
  have hload := Cache.load_of_readEntries (c := .new sampleCache) rfl hread 5
  have hengine : loader.engine = { Engine.new sampleCache .standard (sampleRules "b" "a") with
      cache := (Cache.new sampleCache).restore 5 [sampleEntry]
        (Archive.readRecord sampleCache.directory savedDisk) } := by
    rw [loader, Engine.load, show (Engine.new sampleCache .standard (sampleRules "b" "a")).cache =
      .new sampleCache from rfl, hload]
    rfl
  rw [hengine]
  exact ⟨rfl, rfl, rfl, rfl⟩

/-- The loaded result is served, and it is what would have been found without it. -/
theorem findings_as_with_empty_cache_loaded :
    (Call.run (.analyze [.ofText "//a"]) loader.engine echo 5 savedDisk).report.files.map
        (fun f => f.result.status) = ["cached"] ∧
      (Call.run (.analyze [.ofText "//a"]) loader.engine echo 5 savedDisk).report.findings =
        (Call.run (.analyze [.ofText "//a"]) (.new .standard .standard (sampleRules "b" "a")) echo 5
          savedDisk).report.findings := by
  obtain ⟨hentry, hlifetime, hpool, hrules⟩ := engine_loader
  have htimeout : echoLaw.IsFollowed echo loader.engine.pool.timeout := by
    rw [hpool]
    exact isFollowed_echo
  constructor
  · have hserved : (loader.engine.cache.get 5 (.ofText "//a") "x" loader.engine.configHash).1 =
        some (.string "x") := by
      refine Cache.get_eq_some_iff.mpr ⟨sampleEntry, hentry, rfl, ?_, rfl, ?_⟩
      · rw [configHash, hrules]
        decide +kernel
      · rw [hlifetime]
        decide
    rw [Call.run, analyze]
    simp only [plan, planFile, savedDisk, readText_sampleDisk _ (.inr rfl)]
    cases hget : loader.engine.cache.get 5 (.ofText "//a") "x" loader.engine.configHash with
    | mk answer cache =>
      rw [hget] at hserved
      dsimp only at hserved
      rw [hserved]
      rfl
  · have hsame := (findings_as_with_empty_cache reached_loader htimeout
      (c := .analyze [.ofText "//a"]) (covers_sampleDisk _ (.inr rfl)) .standard).1
    rw [hpool, hrules] at hsame
    exact hsame

end Session
end Engine
end AnalysisRunner
