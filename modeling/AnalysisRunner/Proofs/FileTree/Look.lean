import AnalysisRunner.Proofs.FileTree.Replace

/-!
# Looks at paths

A look goes where a path leads and says what is there.  Many paths are spelled differently
and have the same components, and tables of paths take them for one.  So does a look, but
for one thing: a path that ends in a separator or a dot insists on a directory
(`look_congr`).

Where a file is seen, a directory is seen at every path that the file's path begins with
(`look_of_isPrefix`).  The empty path is no such path; it leads nowhere.
-/

namespace AnalysisRunner

/-! ## 1. What the components tell of a path -/

namespace Path

theorem mem_bytes_iff {bytes : Bytes} {b : UInt8} (hb : b ≠ slash) :
    b ∈ bytes ↔ ∃ s ∈ segments bytes, b ∈ s := by
  induction bytes with
  | nil => simp [segments]
  | cons c rest ih =>
    rw [List.mem_cons, ih, segments]
    split
    · rename_i hc
      simp [hc, hb]
    · cases hrest : segments rest with
      | nil => exact absurd hrest (segments_ne_nil rest)
      | cons s ss => simp [or_assoc]

theorem zero_mem_iff (p : Path) : 0 ∈ p.bytes ↔ ∃ c ∈ p.components, 0 ∈ c.bytes := by
  rw [mem_bytes_iff (by decide), components_eq]
  constructor
  · rintro ⟨s, hs, hzero⟩
    have hsome : component? s ≠ none := by
      unfold component?
      split
      · rename_i hdot
        rcases hdot with rfl | rfl <;> simp [dot] at hzero
      · split <;> simp
    obtain ⟨c, hc⟩ := Option.ne_none_iff_exists'.mp hsome
    refine ⟨c, List.mem_append_right _ (List.mem_filterMap.mpr ⟨s, hs, hc⟩), ?_⟩
    rwa [bytes_of_component? hc]
  · rintro ⟨c, hc, hzero⟩
    rcases List.mem_append.mp hc with hlead | hinner
    · have hends : c = .root ∨ c = .current := by
        unfold lead at hlead
        split at hlead
        · exact .inl (List.mem_singleton.mp hlead)
        · split at hlead
          · exact .inr (List.mem_singleton.mp hlead)
          · cases hlead
      rcases hends with rfl | rfl <;> simp [Component.bytes, slash, dot] at hzero
    · obtain ⟨s, hs, hsc⟩ := List.mem_filterMap.mp hinner
      exact ⟨s, hs, bytes_of_component? hsc ▸ hzero⟩

theorem components_eq_nil_iff (p : Path) : p.components = [] ↔ p.bytes = [] := by
  constructor
  · intro hnil
    rw [components_eq, List.append_eq_nil_iff, lead] at hnil
    obtain ⟨hlead, hinner⟩ := hnil
    cases hbytes : p.bytes with
    | nil => rfl
    | cons b rest =>
      rw [hbytes] at hlead hinner
      cases hrest : segments rest with
      | nil => exact absurd hrest (segments_ne_nil rest)
      | cons s ss =>
        by_cases hb : b = slash
        · simp [hb] at hlead
        · simp [hb, segments, hrest] at hlead hinner
          have hsome := hinner.1
          unfold component? at hsome
          split at hsome
          · rename_i hdot
            rcases hdot with hdot | hdot
            · cases hdot
            · simp at hdot
              exact absurd hdot.2 (hlead hdot.1)
          · split at hsome <;> cases hsome
  · intro hnil
    rw [components_eq, lead, hnil]
    rfl

/-- Every component but the first is a name or two dots. -/
theorem isInner_of_components_eq {p : Path} {first second : PathKey} {c : Component}
    (h : p.components = first ++ c :: second) (hfirst : first ≠ []) : c.IsInner := by
  obtain ⟨lead, inner, hproper, hlead, hinner⟩ := p.isProper_components
  rw [h] at hproper
  have hmem : c ∈ inner := by
    cases first with
    | nil => exact absurd rfl hfirst
    | cons d first =>
      rcases hlead with rfl | rfl | rfl
      · simp at hproper
        simp [← hproper]
      · simp at hproper
        simp [← hproper.2]
      · simp at hproper
        simp [← hproper.2]
  exact hinner c hmem

end Path

/-! ## 2. One look for all spellings -/

namespace FileTree

variable {t : FileTree} {p q : Path}

/-- **A path leads where every other spelling of it leads**, if both insist on a directory or
neither does. -/
theorem find_congr (t : FileTree) (hsame : p.components = q.components)
    (hinsists : p.isDirectoryOnly = q.isDirectoryOnly) : t.find p = t.find q := by
  have habsolute : p.isAbsolute = q.isAbsolute := by
    rw [Bool.eq_iff_iff, Path.isAbsolute_iff, Path.isAbsolute_iff, hsame]
  have hempty : p.bytes.isEmpty = q.bytes.isEmpty := by
    rw [Bool.eq_iff_iff, List.isEmpty_iff, List.isEmpty_iff, ← Path.components_eq_nil_iff,
      ← Path.components_eq_nil_iff, hsame]
  have hnul : p.bytes.contains 0 = q.bytes.contains 0 := by
    rw [Bool.eq_iff_iff, List.contains_iff_mem, List.contains_iff_mem, Path.zero_mem_iff,
      Path.zero_mem_iff, hsame]
  have hhops : p.hops = q.hops := by
    rw [Path.hops, Path.hops, hsame]
  rw [find, find, resolve, resolve, habsolute, hempty, hnul, hhops, hinsists]

theorem look_congr (t : FileTree) (hsame : p.components = q.components)
    (hp : p.isDirectoryOnly = false) (hq : q.isDirectoryOnly = false) : t.look p = t.look q := by
  rw [look, look, t.find_congr hsame (hp.trans hq.symm)]

theorem resolve_of_look {s : Signature} (h : t.look p = .file s) :
    ∃ loc content modified, t.resolve true p = .ok (.node loc (.file content modified)) := by
  unfold look find at h
  split at h
  · rename_i loc content modified hfind
    split at hfind
    · rename_i hresolve
      obtain ⟨rfl, rfl⟩ := Prod.mk.inj (Except.ok.inj hfind)
      exact ⟨_, _, _, hresolve⟩
    · cases hfind
    · cases hfind
  · cases h
  · cases h

theorem isDirectoryOnly_of_look {s : Signature} (h : t.look p = .file s) :
    p.isDirectoryOnly = false := by
  obtain ⟨loc, content, modified, hresolve⟩ := resolve_of_look h
  unfold resolve at hresolve
  split at hresolve
  · cases hresolve
  · split at hresolve
    · cases hresolve
    · split at hresolve
      · split at hresolve
        · cases hresolve
        · rename_i hinsists
          simpa using hinsists
      · rename_i hfile
        exact absurd hresolve (hfile _ _ _)

/-! ## 3. What a path begins with -/

theorem zero_notMem_of_resolve {follow : Bool} {place : Place}
    (h : t.resolve follow p = .ok place) :
    0 ∉ p.bytes := by
  intro hzero
  rw [resolve, List.contains_iff_mem.mpr hzero] at h
  split at h <;> cases h

/-- A path leads where its moves lead, unless it insists on a directory and there is a file. -/
theorem find_of_walk {loc : Location} {n : Node} (hne : p.bytes ≠ []) (hzero : 0 ∉ p.bytes)
    (hinsists : p.isDirectoryOnly = false ∨ n = .directory)
    (hwalk : t.walk true maxLinks (t.start p) p.hops = .ok (.node loc n)) :
    t.find p = .ok (loc, n) := by
  have hwalk' : t.walk (true || p.isDirectoryOnly) maxLinks (if p.isAbsolute then [] else t.base)
      p.hops = .ok (.node loc n) := hwalk
  have hnul : ¬ p.bytes.contains 0 = true := by
    rwa [List.contains_iff_mem]
  rw [find, resolve, if_neg (by simpa using hne), if_neg hnul, hwalk']
  cases n with
  | directory => rfl
  | link target => rfl
  | file content modified =>
    rcases hinsists with hinsists | hinsists
    · simp [hinsists]
    · cases hinsists

theorem look_of_walk {loc : Location} (hne : p.bytes ≠ []) (hzero : 0 ∉ p.bytes)
    (hwalk : t.walk true maxLinks (t.start p) p.hops = .ok (.node loc .directory)) :
    t.look p = .directory := by
  rw [look, find_of_walk hne hzero (.inr rfl) hwalk]

/-- **A file lies in directories**: they are seen at all paths that its path begins with. -/
theorem look_of_isPrefix {a : Path} {s : Signature} (ha : a.bytes ≠ [])
    (hbegins : a.components <+: p.components) (hne : a.components ≠ p.components)
    (hfile : t.look p = .file s) : t.look a = .directory := by
  obtain ⟨below, hbelow⟩ := hbegins
  have hfirst : a.components ≠ [] := fun hnil => ha (a.components_eq_nil_iff.mp hnil)
  obtain ⟨loc, content, modified, hresolve⟩ := resolve_of_look hfile
  have hwalk := walk_of_resolve hresolve
  cases below with
  | nil => exact absurd (by rw [← hbelow, List.append_nil]) hne
  | cons c rest =>
    have hstart : t.start p = t.start a := by
      have habsolute : p.isAbsolute = a.isAbsolute := by
        rw [Bool.eq_iff_iff, Path.isAbsolute_iff, Path.isAbsolute_iff, ← hbelow,
          List.head?_append_of_ne_nil _ hfirst]
      rw [start, start, habsolute]
    obtain ⟨hop, others, hhops⟩ : ∃ hop others, p.hops = a.hops ++ hop :: others := by
      have hinner := Path.isInner_of_components_eq hbelow.symm hfirst
      rw [Path.hops, Path.hops, ← hbelow, List.filterMap_append]
      cases c with
      | root => exact absurd hinner.1 (by decide)
      | current => exact absurd hinner.1 (by decide)
      | parent => exact ⟨.up, _, rfl⟩
      | name bytes => exact ⟨.down bytes, _, rfl⟩
    rw [Bool.true_or, hstart, hhops, walk_append t true (List.cons_ne_nil _ _)] at hwalk
    obtain ⟨r, hdescend, -⟩ := exists_of_bind_eq_ok hwalk
    refine look_of_walk ha ?_ (walk_of_descend hdescend)
    intro hzero
    obtain ⟨d, hd, hzero⟩ := a.zero_mem_iff.mp hzero
    refine zero_notMem_of_resolve hresolve (p.zero_mem_iff.mpr ⟨d, ?_, hzero⟩)
    rw [← hbelow]
    exact List.mem_append_left _ hd

end FileTree
end AnalysisRunner
