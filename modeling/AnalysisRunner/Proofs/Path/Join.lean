import AnalysisRunner.FileTree.Basic
import AnalysisRunner.Proofs.Path.Normal

/-!
# Names inside directories

A directory and a name are joined by a separator, unless the directory brings one along or
is spelled by nothing at all.  However the directory is spelled, the joined path has one
component more (`components_join`), so it asks for one move more (`hops_join`).

A name is a component that may stand anywhere in a path and is neither a dot nor two:
`Component.IsInner` of a name.  A path that ends in a name does not insist on a directory
(`isDirectoryOnly_join`).
-/

namespace AnalysisRunner
namespace Path

/-! ## 1. Segments on both sides of a separator -/

theorem segments_append_slash_append (a b : Bytes) :
    segments (a ++ slash :: b) = segments a ++ segments b := by
  induction a with
  | nil => exact segments_slash b
  | cons c a ih =>
    rw [List.cons_append, segments, segments, ih]
    split
    · rfl
    · cases ha : segments a with
      | nil => exact absurd ha (segments_ne_nil a)
      | cons s ss => rfl

theorem lead_append_slash (a b : Bytes) :
    lead ⟨a ++ slash :: b⟩ = if a = [] then [.root] else lead ⟨a⟩ := by
  cases a with
  | nil => rfl
  | cons c a =>
    rw [if_neg (List.cons_ne_nil c a), lead, lead, segments_append_slash_append]
    cases hs : segments (c :: a) with
    | nil => exact absurd hs (segments_ne_nil _)
    | cons s ss => rfl

/-! ## 2. Joined paths -/

variable {name : Bytes}

theorem isAbsolute_name (h : (Component.name name).IsInner) : isAbsolute ⟨name⟩ = false :=
  isAbsolute_of_isInner h

theorem segments_name (h : (Component.name name).IsInner) : segments name = [name] :=
  segments_of_notMem h.2

theorem name_ne_nil (h : (Component.name name).IsInner) : name ≠ [] :=
  bytes_ne_nil_of_isInner h

theorem name_ne_dot (h : (Component.name name).IsInner) : name ≠ [dot] := by
  rintro rfl
  cases h.1

/-- The three ways in which a name is put behind a directory. -/
theorem join_cases (dir : Path) (h : (Component.name name).IsInner) :
    (dir.bytes = [] ∧ dir.join ⟨name⟩ = ⟨name⟩) ∨
      (∃ a, dir.bytes = a ++ [slash] ∧ dir.join ⟨name⟩ = ⟨a ++ slash :: name⟩) ∨
      (dir.bytes ≠ [] ∧ dir.join ⟨name⟩ = ⟨dir.bytes ++ slash :: name⟩) := by
  unfold join
  by_cases hnil : dir.bytes = []
  · exact .inl ⟨hnil, if_pos (.inr hnil)⟩
  · rw [isAbsolute_name h, if_neg (by simp [hnil])]
    by_cases hlast : dir.bytes.getLast? = some slash
    · obtain ⟨a, ha⟩ := List.getLast?_eq_some_iff.mp hlast
      refine .inr (.inl ⟨a, ha, ?_⟩)
      rw [if_pos hlast, ha, List.append_assoc, List.singleton_append]
    · exact .inr (.inr ⟨hnil, if_neg hlast⟩)

/-- **A joined path has one component more.** -/
theorem components_join (dir : Path) (h : (Component.name name).IsInner) :
    (dir.join ⟨name⟩).components = dir.components ++ [.name name] := by
  have hname : (segments name).filterMap component? = [.name name] := by
    have hname : component? name = some (.name name) := h.1
    rw [segments_name h, List.filterMap_cons_some hname, List.filterMap_nil]
  rcases join_cases dir h with ⟨hnil, hjoin⟩ | ⟨a, ha, hjoin⟩ | ⟨hne, hjoin⟩
  · have hdir : dir.components = [] := by
      rw [components_eq, lead, hnil]
      rfl
    rw [hjoin, hdir, List.nil_append]
    exact components_spelling (k := [.name name])
      ⟨[], [.name name], rfl, .inl rfl, by simpa using h⟩
  · have hempty : (segments []).filterMap component? = [] := rfl
    rw [hjoin, components_eq, components_eq dir, show dir = ⟨a ++ [slash]⟩ from congrArg mk ha,
      lead_append_slash, lead_append_slash]
    simp only [segments_append_slash_append, List.filterMap_append, hname, hempty,
      List.append_nil, List.append_assoc]
  · rw [hjoin, components_eq, components_eq dir, lead_append_slash, if_neg hne]
    simp only [segments_append_slash_append, List.filterMap_append, hname, List.append_assoc]

theorem hops_join (dir : Path) (h : (Component.name name).IsInner) :
    (dir.join ⟨name⟩).hops = dir.hops ++ [.down name] := by
  rw [hops, components_join dir h, List.filterMap_append]
  rfl

theorem bytes_join_ne_nil (dir : Path) (h : (Component.name name).IsInner) :
    (dir.join ⟨name⟩).bytes ≠ [] := by
  rcases join_cases dir h with ⟨-, hjoin⟩ | ⟨a, -, hjoin⟩ | ⟨-, hjoin⟩
  · rw [hjoin]
    exact name_ne_nil h
  · rw [hjoin]
    simp
  · rw [hjoin]
    simp

theorem isAbsolute_join (dir : Path) (h : (Component.name name).IsInner) :
    (dir.join ⟨name⟩).isAbsolute = dir.isAbsolute := by
  rcases join_cases dir h with ⟨hnil, hjoin⟩ | ⟨a, ha, hjoin⟩ | ⟨hne, hjoin⟩
  · rw [hjoin, isAbsolute_name h, isAbsolute, hnil]
    rfl
  · rw [hjoin, isAbsolute, isAbsolute, ha]
    cases a <;> rfl
  · rw [hjoin, isAbsolute, isAbsolute]
    cases hbytes : dir.bytes with
    | nil => exact absurd hbytes hne
    | cons b rest => rfl

/-- A path that ends in a name may lead to a file. -/
theorem isDirectoryOnly_join (dir : Path) (h : (Component.name name).IsInner) :
    (dir.join ⟨name⟩).isDirectoryOnly = false := by
  have hlast : (segments (dir.join ⟨name⟩).bytes).getLast? = some name := by
    rcases join_cases dir h with ⟨-, hjoin⟩ | ⟨a, -, hjoin⟩ | ⟨-, hjoin⟩
    · rw [hjoin, segments_name h, List.getLast?_singleton]
    · rw [hjoin, segments_append_slash_append, segments_name h, List.getLast?_concat]
    · rw [hjoin, segments_append_slash_append, segments_name h, List.getLast?_concat]
  rw [isDirectoryOnly, hlast]
  simp [name_ne_nil h, name_ne_dot h]

theorem contains_zero_join (dir : Path) (h : (Component.name name).IsInner) (hname : 0 ∉ name) :
    (dir.join ⟨name⟩).bytes.contains 0 = dir.bytes.contains 0 := by
  have hslash : (0 : UInt8) ≠ slash := by decide
  rw [Bool.eq_iff_iff, List.contains_iff_mem, List.contains_iff_mem]
  rcases join_cases dir h with ⟨hnil, hjoin⟩ | ⟨a, ha, hjoin⟩ | ⟨-, hjoin⟩
  · rw [hjoin, hnil]
    simpa using hname
  · rw [hjoin, ha]
    simp [hname, hslash]
  · rw [hjoin]
    simp [hname, hslash]

end Path
end AnalysisRunner
