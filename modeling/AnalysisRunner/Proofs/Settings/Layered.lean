import AnalysisRunner.Proofs.FileTree.Location
import AnalysisRunner.Proofs.Settings.Spelled
import AnalysisRunner.Settings.Load

/-!
# Settings in layers

There are sixteen settings (`Setting`), of five kinds, and twelve of them have a variable of the
environment.  A kind says which texts spell which values.  A setting in force has the value that
its variable spells, if the variable is set and spells one, and else the value from below
(`Setting.Layered`).  So it depends on nothing but its own variable and its own value below.

Settings are told apart by the sixteen (`Settings.ext_get`), hence there is exactly one way to lay
an environment over settings (`Settings.merged_iff`).  What it gives is judged, and nothing before
it: settings are had exactly when the merged ones break no rule, even if those below do.
-/

namespace AnalysisRunner

/-! ## 1. The sixteen settings -/

/-- The kinds of settings. -/
inductive SettingKind where
  | flag
  | number
  | path
  | text
  | texts
  deriving DecidableEq, Repr

namespace SettingKind

/-- What settings of a kind have as values. -/
def Value : SettingKind → Type
  | .flag => Bool
  | .number => UInt64
  | .path => Path
  | .text => String
  | .texts => List String

/-- Whether a text of the environment spells a value.  Every text spells a path, a text and a flag,
which is off if it is not on; no text spells a list. -/
def Spells : (k : SettingKind) → String → k.Value → Prop
  | .flag, spelled, on => on = true ↔ Environment.SpellsOn spelled
  | .number, spelled, n => Environment.SpellsNumber spelled (UInt64.toNat n)
  | .path, spelled, p => p = Path.ofText spelled
  | .text, spelled, s => s = spelled
  | .texts, _, _ => False

/-- The value that a text of the environment spells. -/
def read? : (k : SettingKind) → String → Option k.Value
  | .flag, spelled => some (Environment.isOn spelled)
  | .number, spelled => Environment.number? spelled
  | .path, spelled => some (Path.ofText spelled)
  | .text, spelled => some spelled
  | .texts, _ => none

/-- **A value is read exactly where it is spelled.** -/
theorem read?_eq_some_iff {k : SettingKind} {spelled : String} {v : k.Value} :
    k.read? spelled = some v ↔ k.Spells spelled v := by
  cases k with
  | flag =>
    have hflag : ∀ on : Bool, some (Environment.isOn spelled) = some on ↔
        (on = true ↔ Environment.SpellsOn spelled) := by
      intro on
      rw [Option.some.injEq, ← Environment.isOn_iff, eq_comm, Bool.eq_iff_iff]
    exact hflag v
  | number => exact Environment.number?_eq_some_iff
  | path => exact Option.some_inj.trans eq_comm
  | text => exact Option.some_inj.trans eq_comm
  | texts =>
    constructor
    · intro h
      cases h
    · exact False.elim

end SettingKind

/-- The settings, by kind. -/
inductive Setting : SettingKind → Type where
  | persist : Setting .flag
  | directory : Setting .path
  | lifetime : Setting .number
  | capacity : Setting .number
  | concurrency : Setting .number
  | stopOnError : Setting .flag
  | timeout : Setting .number
  | debounce : Setting .number
  | poll : Setting .number
  | polling : Setting .flag
  | window : Setting .number
  | batching : Setting .flag
  | extensions : Setting .texts
  | ignored : Setting .texts
  | level : Setting .text
  | format : Setting .text

namespace Setting

variable {k : SettingKind}

/-- The value of a setting. -/
def get : Setting k → Settings → k.Value
  | .persist, s => s.cache.persist
  | .directory, s => s.cache.directory
  | .lifetime, s => s.cache.lifetimeSeconds
  | .capacity, s => s.cache.capacity
  | .concurrency, s => s.pool.concurrency
  | .stopOnError, s => s.pool.stopOnError
  | .timeout, s => s.pool.timeoutMillis
  | .debounce, s => s.watch.debounceMillis
  | .poll, s => s.watch.pollMillis
  | .polling, s => s.watch.polling
  | .window, s => s.watch.windowMillis
  | .batching, s => s.watch.batching
  | .extensions, s => s.watch.extensions
  | .ignored, s => s.watch.ignored
  | .level, s => s.log.level
  | .format, s => s.log.format

/-- The variable that overrides a setting. -/
def source? : Setting k → Option String
  | .persist => some "SOLLINT_CACHE_PERSIST"
  | .directory => some "SOLLINT_CACHE_DIR"
  | .lifetime => some "SOLLINT_CACHE_TTL_SECS"
  | .capacity => some "SOLLINT_CACHE_MAX_ENTRIES"
  | .concurrency => some "SOLLINT_MAX_CONCURRENCY"
  | .stopOnError => some "SOLLINT_STOP_ON_ERROR"
  | .timeout => some "SOLLINT_TASK_TIMEOUT_MS"
  | .debounce => some "SOLLINT_WATCH_DEBOUNCE_MS"
  | .polling => some "SOLLINT_WATCH_POLLING"
  | .window => some "SOLLINT_WATCH_AGGREGATION_MS"
  | .level => some "RUST_LOG"
  | .format => some "SOLLINT_LOG_FORMAT"
  | _ => none

/-- Whether a setting has the value that its variable spells, if it is set and spells one, and else
the value from below. -/
structure Layered (x : Setting k) (env : Environment) (below merged : Settings) : Prop where
  above : ∀ name text v, x.source? = some name → env name = some text → k.Spells text v →
    x.get merged = v
  kept : (∀ name text v, x.source? = some name → env name = some text → ¬ k.Spells text v) →
    x.get merged = x.get below

/-- The value of a setting under an environment. -/
def layer (x : Setting k) (env : Environment) (below : Settings) : k.Value :=
  ((x.source?.bind env).bind k.read?).getD (x.get below)

variable {x : Setting k} {env env' : Environment} {below merged : Settings}

theorem layered_iff : x.Layered env below merged ↔ x.get merged = x.layer env below := by
  have hspelled : ∀ v, (x.source?.bind env).bind k.read? = some v ↔
      ∃ name text, x.source? = some name ∧ env name = some text ∧ k.Spells text v := by
    intro v
    simp only [Option.bind_eq_some_iff, SettingKind.read?_eq_some_iff]
    constructor
    · rintro ⟨text, ⟨name, hname, htext⟩, hv⟩
      exact ⟨name, text, hname, htext, hv⟩
    · rintro ⟨name, text, hname, htext, hv⟩
      exact ⟨text, ⟨name, hname, htext⟩, hv⟩
  rw [layer]
  cases hvalue : (x.source?.bind env).bind k.read? with
  | none =>
    have hnone : ∀ name text v, x.source? = some name → env name = some text →
        ¬ k.Spells text v := by
      intro name text v hname htext hv
      cases hvalue.symm.trans ((hspelled v).mpr ⟨name, text, hname, htext, hv⟩)
    exact ⟨fun h => h.kept hnone,
      fun h => ⟨fun name text v hname htext hv => absurd hv (hnone name text v hname htext),
        fun _ => h⟩⟩
  | some v =>
    obtain ⟨name, text, hname, htext, hv⟩ := (hspelled v).mp hvalue
    refine ⟨fun h => h.above name text v hname htext hv, fun h => ⟨?_, fun hnone => ?_⟩⟩
    · intro name' text' v' hname' htext' hv'
      rw [h, Option.getD_some]
      exact Option.some.inj
        (hvalue.symm.trans ((hspelled v').mpr ⟨name', text', hname', htext', hv'⟩))
    · exact absurd hv (hnone name text v hname htext)

/-- **Each override reads its own variable and replaces its own setting.** -/
theorem get_overlay (x : Setting k) (env : Environment) (s : Settings) :
    x.get (s.overlay env) = x.layer env s := by
  have hflag : ∀ name base, env.flag name base =
      ((env name).bind (SettingKind.read? .flag)).getD base := by
    intro name base
    rw [Environment.flag]
    cases env name <;> rfl
  have hpath : ∀ name base, env.path name base =
      ((env name).bind (SettingKind.read? .path)).getD base := by
    intro name base
    rw [Environment.path]
    cases env name <;> rfl
  have htext : ∀ name base, env.text name base =
      ((env name).bind (SettingKind.read? .text)).getD base := by
    intro name base
    rw [Environment.text]
    cases env name <;> rfl
  cases x
  case persist | stopOnError | polling => exact hflag _ _
  case directory => exact hpath _ _
  case level | format => exact htext _ _
  -- numbers are read in the same words, and the others have no variable
  all_goals rfl

/-- A setting looks at nothing but its own variable. -/
theorem layer_congr {name : String} (hname : x.source? = some name) (hsame : env name = env' name)
    (below : Settings) : x.layer env below = x.layer env' below := by
  rw [layer, layer, hname, Option.bind_some, Option.bind_some, hsame]

end Setting

namespace Settings

/-- Settings from the values of the sixteen. -/
def ofValues (value : ∀ k, Setting k → k.Value) : Settings where
  cache :=
    { persist := value _ .persist
      directory := value _ .directory
      lifetimeSeconds := value _ .lifetime
      capacity := value _ .capacity }
  pool :=
    { concurrency := value _ .concurrency
      stopOnError := value _ .stopOnError
      timeoutMillis := value _ .timeout }
  watch :=
    { debounceMillis := value _ .debounce
      pollMillis := value _ .poll
      polling := value _ .polling
      windowMillis := value _ .window
      batching := value _ .batching
      extensions := value _ .extensions
      ignored := value _ .ignored }
  log :=
    { level := value _ .level
      format := value _ .format }

/-- Settings that agree in all sixteen are the same. -/
theorem ext_get {s t : Settings} (h : ∀ (k : SettingKind) (x : Setting k), x.get s = x.get t) :
    s = t := by
  have hsame : (fun k (x : Setting k) => x.get s) = fun k x => x.get t :=
    funext fun k => funext fun x => h k x
  calc
    s = ofValues fun _ x => x.get s := rfl
    _ = ofValues fun _ x => x.get t := by rw [hsame]
    _ = t := rfl

/-- Whether settings are those below with an environment laid over them. -/
def Merged (below : Settings) (env : Environment) (merged : Settings) : Prop :=
  ∀ (k : SettingKind) (x : Setting k), x.Layered env below merged

/-- **There is one way to lay an environment over settings.** -/
theorem merged_iff {below merged : Settings} {env : Environment} :
    below.Merged env merged ↔ merged = below.overlay env := by
  constructor
  · intro h
    refine ext_get fun k x => ?_
    rw [Setting.layered_iff.mp (h k x), Setting.get_overlay]
  · rintro rfl k x
    exact Setting.layered_iff.mpr (x.get_overlay env below)

/-! ## 2. The rules -/

/-- Whether settings break no rule. -/
structure IsValid (s : Settings) : Prop where
  capacity : 0 < s.cache.capacity
  lifetime : 0 < s.cache.lifetimeSeconds
  concurrency : 0 < s.pool.concurrency
  extensions : s.watch.extensions ≠ []
  /-- A level is a list of directives, which is not looked into,
  or one of those that stand alone. -/
  level : '=' ∈ s.log.level.toList ∨ ',' ∈ s.log.level.toList ∨ s.log.level ∈ LogSettings.levels
  format : s.log.format ∈ LogSettings.formats

variable {s : Settings}

/-- **No broken rule is found exactly if none is broken.** -/
theorem fault?_eq_none_iff : s.fault? = none ↔ s.IsValid := by
  have hrule : ∀ {broken : Prop} [Decidable broken] {fault : RuleFault} {others : Option RuleFault},
      (if broken then some fault else others) = none ↔ ¬ broken ∧ others = none := by
    intro broken _ fault others
    by_cases hbroken : broken <;> simp [hbroken]
  have hpositive : ∀ n : UInt64, ¬ n = 0 ↔ 0 < n := fun n => UInt64.pos_iff_ne_zero.symm
  have hlevel : ¬ (¬ LogSettings.isDirective s.log.level ∧ s.log.level ∉ LogSettings.levels) ↔
      '=' ∈ s.log.level.toList ∨ ',' ∈ s.log.level.toList ∨ s.log.level ∈ LogSettings.levels := by
    rw [not_and_or, not_not, not_not, LogSettings.isDirective, Bool.or_eq_true,
      List.contains_iff_mem, List.contains_iff_mem, or_assoc]
  rw [fault?, hrule, hrule, hrule, hrule, hrule, hrule, hpositive, hpositive,
    hpositive, hlevel, not_not]
  constructor
  · rintro ⟨hcapacity, hlifetime, hconcurrency, hextensions, hlevel, hformat, -⟩
    exact ⟨hcapacity, hlifetime, hconcurrency, hextensions, hlevel, hformat⟩
  · rintro ⟨hcapacity, hlifetime, hconcurrency, hextensions, hlevel, hformat⟩
    exact ⟨hcapacity, hlifetime, hconcurrency, hextensions, hlevel, hformat, rfl⟩

/-! ## 3. Loading -/

/-- What lies below the environment: the settings of the file there is to read, or the standard ones
where there is none. -/
inductive Underlies (standard : Settings) (disk : FileTree) (home explicit : Option Path) :
    Option Path → Settings → Prop
  | standard (hfile : file? disk home explicit = .ok none) :
      Underlies standard disk home explicit none standard
  | file {path : Path} {below : Settings} (hfile : file? disk home explicit = .ok (some path))
      (hread : ofFile standard disk path = .ok below) :
      Underlies standard disk home explicit (some path) below

variable {standard below below' : Settings} {disk : FileTree}
  {home explicit file file' : Option Path}
  {env : Environment}

theorem Underlies.unique (h : Underlies standard disk home explicit file below)
    (h' : Underlies standard disk home explicit file' below') : below = below' := by
  cases h with
  | standard hfile =>
    cases h' with
    | standard _ => rfl
    | file hfile' _ => cases hfile.symm.trans hfile'
  | file hfile hread =>
    cases h' with
    | standard hfile' => cases hfile.symm.trans hfile'
    | file hfile' hread' =>
      cases hfile.symm.trans hfile'
      exact Except.ok.inj (hread.symm.trans hread')

theorem Underlies.load (h : Underlies standard disk home explicit file below) (env : Environment) :
    load standard disk env home explicit = (below.overlay env).checked.map fun s => ⟨s, file⟩ := by
  cases h with
  | standard hfile =>
    rw [Settings.load, hfile]
    change ((standard.overlay env).checked.bind fun s => .ok (⟨s, none⟩ : Loaded)) = _
    cases (standard.overlay env).checked <;> rfl
  | @file path below hfile hread =>
    rw [Settings.load, hfile]
    change ((ofFile standard disk path).bind fun s => (s.overlay env).checked.bind fun t =>
      .ok (⟨t, some path⟩ : Loaded)) = _
    rw [hread]
    change ((below.overlay env).checked.bind fun s => .ok (⟨s, some path⟩ : Loaded)) = _
    cases (below.overlay env).checked <;> rfl

theorem exists_underlies_of_load {l : Loaded} (h : load standard disk env home explicit = .ok l) :
    ∃ file below, Underlies standard disk home explicit file below := by
  cases hfile : file? disk home explicit with
  | error fault =>
    rw [load, hfile] at h
    cases h
  | ok file =>
    cases file with
    | none => exact ⟨none, standard, .standard hfile⟩
    | some path =>
      cases hread : ofFile standard disk path with
      | ok below => exact ⟨some path, below, .file hfile hread⟩
      | error fault =>
        rw [load, hfile] at h
        change (ofFile standard disk path).bind _ = _ at h
        rw [hread] at h
        cases h

/-- **What is loaded are the settings below with the environment laid over them, if these break no
rule.** -/
theorem load_eq_ok_iff {l : Loaded} : load standard disk env home explicit = .ok l ↔
    ∃ below, Underlies standard disk home explicit l.file below ∧ (below.overlay env).IsValid ∧
      l.settings = below.overlay env := by
  have hmap : ∀ below file, (checked below).map (fun s => (⟨s, file⟩ : Loaded)) = .ok l ↔
      below.IsValid ∧ l = ⟨below, file⟩ := by
    intro below file
    rw [← fault?_eq_none_iff, checked]
    cases below.fault? <;> simp [Except.map, eq_comm]
  constructor
  · intro h
    obtain ⟨file, below, hbelow⟩ := exists_underlies_of_load h
    rw [hbelow.load, hmap] at h
    obtain ⟨hvalid, rfl⟩ := h
    exact ⟨below, hbelow, hvalid, rfl⟩
  · rintro ⟨below, hbelow, hvalid, hsettings⟩
    rw [hbelow.load, hmap, ← hsettings]
    exact ⟨hsettings ▸ hvalid, rfl⟩

/-- **Settings are layered one by one, and judged when they are merged.** -/
theorem load_layers_then_judges (standard : Settings) (disk : FileTree)
    (home explicit : Option Path)
    (env : Environment) :
    (∀ l, load standard disk env home explicit = .ok l ↔
      ∃ below, Underlies standard disk home explicit l.file below ∧ below.Merged env l.settings ∧
        l.settings.IsValid) ∧
    (∀ file below, Underlies standard disk home explicit file below →
      ∃ merged, below.Merged env merged ∧
        ((∃ l, load standard disk env home explicit = .ok l) ↔ merged.IsValid)) ∧
    ∀ env' l l', load standard disk env home explicit = .ok l →
      load standard disk env' home explicit = .ok l' →
        ∀ (k : SettingKind) (x : Setting k) name, x.source? = some name → env name = env' name →
          x.get l.settings = x.get l'.settings := by
  refine ⟨?_, ?_, ?_⟩
  · intro l
    rw [load_eq_ok_iff]
    refine exists_congr fun below => and_congr_right fun _ => ?_
    rw [merged_iff]
    constructor
    · rintro ⟨hvalid, hsettings⟩
      exact ⟨hsettings, hsettings ▸ hvalid⟩
    · rintro ⟨hsettings, hvalid⟩
      exact ⟨hsettings ▸ hvalid, hsettings⟩
  · intro file below hbelow
    refine ⟨below.overlay env, merged_iff.mpr rfl, ?_, ?_⟩
    · rintro ⟨l, hl⟩
      obtain ⟨below', hbelow', hvalid, -⟩ := load_eq_ok_iff.mp hl
      rwa [hbelow.unique hbelow']
    · intro hvalid
      exact ⟨⟨below.overlay env, file⟩, load_eq_ok_iff.mpr ⟨below, hbelow, hvalid, rfl⟩⟩
  · intro env' l l' hl hl' k x name hname hsame
    obtain ⟨below, hbelow, -, hsettings⟩ := load_eq_ok_iff.mp hl
    obtain ⟨below', hbelow', -, hsettings'⟩ := load_eq_ok_iff.mp hl'
    rw [hsettings, hsettings', hbelow.unique hbelow', Setting.get_overlay, Setting.get_overlay,
      Setting.layer_congr hname hsame]

/-! ## 4. A file that is repaired

The file asks for no results to be kept, which is refused.  The environment asks for seven. -/

def faultyText : String :=
  "[cache]\nmax_entries = 0\n"

def faultyName : Location :=
  [Bytes.ofText "c.toml"]

def faultyDisk : FileTree :=
  FileTree.empty.put faultyName (.file (Bytes.ofText faultyText) 0)

def faultySettings : Settings :=
  { Settings.standard 4 with cache := { (Settings.standard 4).cache with capacity := 0 } }

def repairs : Environment := fun name =>
  if name = "SOLLINT_CACHE_MAX_ENTRIES" then some "+7" else none

theorem find_faultyDisk :
    faultyDisk.find faultyName.path = .ok (faultyName, .file (Bytes.ofText faultyText) 0) := by
  have hname : (Bytes.ofText "c.toml").IsFileName := ⟨⟨by decide, by decide⟩, by decide, by decide⟩
  have hlinkless : (FileTree.empty.put ([] ++ [Bytes.ofText "c.toml"])
      (.file (Bytes.ofText faultyText) 0)).IsLinkless :=
    FileTree.IsLinkless.empty.put rfl hname rfl (by simp)
  exact FileTree.IsLinkless.find_path hlinkless rfl

theorem underlies_faultySettings : Underlies (Settings.standard 4) faultyDisk none
    (some faultyName.path) (some faultyName.path) faultySettings := by
  refine .file ?_ ?_
  · rw [file?, FileTree.leads, find_faultyDisk]
    rfl
  · have htext : faultyDisk.readText faultyName.path = .ok faultyText := by
      simp only [FileTree.readText, FileTree.read, find_faultyDisk, bind,
        Except.bind, pure, Except.pure, Bytes.text?_ofText]
    have hparsed : (Toml.ofText? faultyText).bind (ofDocument? (Settings.standard 4)) =
        some faultySettings := by
      decide +kernel
    simp only [ofFile, htext, hparsed]

/-- The file alone would be refused, and with the environment it is not. -/
theorem load_layers_then_judges_repaired :
    Underlies (Settings.standard 4) faultyDisk none (some faultyName.path) (some faultyName.path)
        faultySettings ∧
      ¬ faultySettings.IsValid ∧
      ∃ l, load (Settings.standard 4) faultyDisk repairs none (some faultyName.path) = .ok l ∧
        l.settings.cache.capacity = 7 := by
  have hinvalid : ¬ faultySettings.IsValid := fun h => absurd h.capacity (by decide)
  obtain ⟨hloaded, hjudged, -⟩ := load_layers_then_judges (Settings.standard 4) faultyDisk none
    (some faultyName.path) repairs
  obtain ⟨merged, hmerged, hvalid⟩ := hjudged _ _ underlies_faultySettings
  have hrepaired : merged.IsValid := by
    rw [merged_iff.mp hmerged]
    exact ⟨by decide, by decide, by decide, by decide, by decide, by decide⟩
  obtain ⟨l, hl⟩ := hvalid.mpr hrepaired
  obtain ⟨below, -, hlayered, -⟩ := (hloaded l).mp hl
  refine ⟨underlies_faultySettings, hinvalid, l, hl, ?_⟩
  exact (hlayered _ .capacity).above "SOLLINT_CACHE_MAX_ENTRIES" "+7" (7 : UInt64) rfl rfl
    ⟨['+'], ['7'], rfl, .inr rfl, List.cons_ne_nil _ _, List.all_eq_true.mp rfl, rfl⟩

end Settings
end AnalysisRunner
