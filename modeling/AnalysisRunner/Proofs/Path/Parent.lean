import AnalysisRunner.FileTree.Basic
import AnalysisRunner.Proofs.Path.Normal

/-!
# The directory above

The directory above a path is told as a part of its spelling: the bytes up to the end of the
last component but one.  A spelling that is cut off where one of its components ends has the
components up to there (`components_slice`), so the directory above has all components but the
last (`components_of_parent?`), and the moves that lead to it are the first of those that lead
to the path (`hops_of_parent?`).
-/

namespace AnalysisRunner
namespace Path

/-! ## 1. Cutting a spelling -/

/-- The first segment is all there is, or a separator follows it. -/
theorem segments_cons_cases {bytes s : Bytes} {ss : List Bytes} (h : segments bytes = s :: ss) :
    (ss = [] ∧ bytes = s) ∨ ∃ rest, bytes = s ++ slash :: rest ∧ segments rest = ss := by
  induction bytes generalizing s with
  | nil =>
    obtain ⟨rfl, rfl⟩ := List.cons.inj h
    exact .inl ⟨rfl, rfl⟩
  | cons b bytes ih =>
    rw [segments] at h
    split at h
    · rename_i hb
      obtain ⟨rfl, rfl⟩ := List.cons.inj h
      exact .inr ⟨bytes, by rw [hb]; rfl, rfl⟩
    · cases hrest : segments bytes with
      | nil => exact absurd hrest (segments_ne_nil bytes)
      | cons s' ss' =>
        rw [hrest] at h
        obtain ⟨rfl, rfl⟩ := List.cons.inj h
        rcases ih hrest with ⟨rfl, rfl⟩ | ⟨rest, rfl, hss⟩
        · exact .inl ⟨rfl, rfl⟩
        · exact .inr ⟨rest, rfl, hss⟩

theorem component?_nil : component? [] = none :=
  rfl

/-- Bytes can be cut off where one of their spans stops. -/
theorem exists_cut {bytes : Bytes} {parts : List Bytes} {start : Nat} {before after : List Span}
    {s : Span} (hparts : segments bytes = parts)
    (h : spansFrom start parts = before ++ s :: after) :
    ∃ cut, cut <+: bytes ∧ s.stop = start + cut.length ∧ cut ≠ [] ∧
      (segments cut).head? = parts.head? ∧ spansFrom start (segments cut) = before ++ [s] := by
  induction parts generalizing bytes start before with
  | nil => exact absurd hparts (segments_ne_nil bytes)
  | cons seg parts ih =>
    have hseg : slash ∉ seg := slash_notMem_of_mem_segments (hparts ▸ List.mem_cons_self)
    -- A span of a later segment: the cut begins with this segment and a separator.
    have hlater : ∀ before', spansFrom (start + seg.length + 1) parts = before' ++ s :: after →
        ∃ cut, seg ++ slash :: cut <+: bytes ∧
          s.stop = start + (seg ++ slash :: cut).length ∧
          spansFrom (start + seg.length + 1) (segments cut) = before' ++ [s] := by
      intro before' htail
      rcases segments_cons_cases hparts with ⟨rfl, -⟩ | ⟨rest, rfl, hrest⟩
      · rw [spansFrom] at htail
        exact absurd htail.symm (by simp)
      · obtain ⟨cut, ⟨more, rfl⟩, hstop, -, -, hspans⟩ := ih hrest htail
        refine ⟨cut, ⟨more, by simp⟩, ?_, hspans⟩
        rw [hstop, List.length_append, List.length_cons]
        omega
    rw [spansFrom] at h
    cases hc : component? seg with
    | some c =>
      rw [hc] at h
      cases before with
      | nil =>
        obtain ⟨rfl, -⟩ := List.cons.inj h
        refine ⟨seg, ?_, rfl, ?_, ?_, ?_⟩
        · rcases segments_cons_cases hparts with ⟨-, rfl⟩ | ⟨rest, rfl, -⟩
          · exact List.prefix_refl _
          · exact List.prefix_append _ _
        · rintro rfl
          exact absurd hc (by simp [component?_nil])
        · rw [segments_of_notMem hseg]
          rfl
        · rw [segments_of_notMem hseg, spansFrom, hc]
          rfl
      | cons x before =>
        obtain ⟨rfl, htail⟩ := List.cons.inj h
        obtain ⟨cut, hcut, hstop, hspans⟩ := hlater before htail
        refine ⟨_, hcut, hstop, by simp, ?_, ?_⟩
        · rw [segments_append_slash hseg]
          rfl
        · rw [segments_append_slash hseg, spansFrom, hc, hspans]
          rfl
    | none =>
      rw [hc] at h
      obtain ⟨cut, hcut, hstop, hspans⟩ := hlater before h
      refine ⟨_, hcut, hstop, by simp, ?_, ?_⟩
      · rw [segments_append_slash hseg]
        rfl
      · rw [segments_append_slash hseg, spansFrom, hc, hspans]

/-- A beginning of a path that holds its first segment begins as the path does. -/
theorem lead_of_prefix {bytes cut : Bytes} (hcut : cut <+: bytes) (hne : cut ≠ [])
    (hhead : (segments cut).head? = (segments bytes).head?) : lead ⟨cut⟩ = lead ⟨bytes⟩ := by
  obtain ⟨more, rfl⟩ := hcut
  have hfirst : (cut ++ more).head? = cut.head? := by
    cases cut with
    | nil => exact absurd rfl hne
    | cons b cut => rfl
  rw [lead, lead, hhead, hfirst]

/-- The first component of a path, if it is the root or a dot, ends after one byte. -/
theorem spans_cases (p : Path) : ∃ first, p.spans = first ++ spansFrom 0 (segments p.bytes) ∧
    first.map Span.component = p.lead ∧
    ∀ s ∈ first, first = [s] ∧ (p.slice 0 s.stop).components = [s.component] := by
  refine ⟨_, rfl, ?_, ?_⟩
  · rw [lead]
    split
    · rfl
    · split <;> rfl
  · intro s hs
    split at hs
    · rename_i hroot
      rw [if_pos hroot]
      rw [List.mem_singleton] at hs
      obtain ⟨rest, hbytes⟩ : ∃ rest, p.bytes = slash :: rest := List.head?_eq_some_iff.mp hroot
      rw [hs, slice, hbytes]
      exact ⟨rfl, rfl⟩
    · rename_i hroot
      split at hs
      · rename_i hdot
        rw [if_neg hroot, if_pos hdot]
        rw [List.mem_singleton] at hs
        obtain ⟨ss, hsegments⟩ : ∃ ss, segments p.bytes = [dot] :: ss :=
          List.head?_eq_some_iff.mp hdot
        have hbytes : ∃ rest, p.bytes = dot :: rest := by
          rcases segments_cons_cases hsegments with ⟨-, hall⟩ | ⟨rest, hall, -⟩
          · exact ⟨[], hall⟩
          · exact ⟨slash :: rest, hall⟩
        obtain ⟨rest, hbytes⟩ := hbytes
        rw [hs, slice, hbytes]
        exact ⟨rfl, rfl⟩
      · cases hs

/-- A cut after the first component that is neither the root nor a dot in front. -/
theorem components_slice_inner {p : Path} {inner after : List Span} {s : Span}
    (h : spansFrom 0 (segments p.bytes) = inner ++ s :: after) :
    (p.slice 0 s.stop).components = p.lead ++ (inner ++ [s]).map Span.component := by
  obtain ⟨cut, ⟨more, hmore⟩, hstop, hne, hhead, hspans⟩ := exists_cut rfl h
  have hslice : p.slice 0 s.stop = ⟨cut⟩ := by
    rw [slice, hstop, Nat.zero_add, ← hmore, List.take_left, List.drop_zero]
  have hlead : lead ⟨cut⟩ = p.lead := lead_of_prefix ⟨more, hmore⟩ hne hhead
  rw [hslice, components_eq, hlead, ← map_component_spansFrom 0, hspans]

/-- **A path that is cut off where one of its components ends has the components up to there.** -/
theorem components_slice {p : Path} {before after : List Span} {s : Span}
    (h : p.spans = before ++ s :: after) :
    (p.slice 0 s.stop).components = (before ++ [s]).map Span.component := by
  obtain ⟨first, hspans, hlead, hfirst⟩ := p.spans_cases
  rw [hspans] at h
  rcases List.append_eq_append_iff.mp h with ⟨inner, rfl, htail⟩ | ⟨inner, rfl, htail⟩
  · rw [components_slice_inner htail, ← hlead, List.append_assoc, ← List.map_append]
  · cases inner with
    | nil =>
      have hinner : spansFrom 0 (segments p.bytes) = [] ++ s :: after := htail.symm
      rw [List.append_nil] at hlead
      rw [components_slice_inner hinner, ← hlead, ← List.map_append, List.nil_append]
    | cons x inner =>
      obtain ⟨rfl, -⟩ := List.cons.inj htail
      obtain ⟨hone, hcomponents⟩ := hfirst s (by simp)
      have hnil : before = [] := by
        have hlength := congrArg List.length hone
        rw [List.length_append, List.length_cons, List.length_singleton] at hlength
        exact List.length_eq_zero_iff.mp (by omega)
      rw [hcomponents, hnil]
      rfl

/-! ## 2. The directory above -/

variable {p q : Path}

/-- **The directory above a path has all its components but the last.** -/
theorem components_of_parent? (h : p.parent? = some q) :
    ∃ c, c ≠ .root ∧ p.components = q.components ++ [c] := by
  unfold parent? at h
  cases hspans : p.spans.reverse with
  | nil =>
    rw [hspans] at h
    cases h
  | cons last before =>
    have hall : p.spans = before.reverse ++ [last] := by
      rw [← List.reverse_reverse p.spans, hspans, List.reverse_cons]
    rw [hspans] at h
    dsimp only at h
    split at h
    · cases h
    · rename_i hroot
      refine ⟨last.component, hroot, ?_⟩
      rw [components, hall, List.map_append, List.map_singleton]
      congr 1
      cases before with
      | nil =>
        obtain rfl := Option.some.inj h
        rfl
      | cons s before =>
        obtain rfl := Option.some.inj h
        rw [List.reverse_cons, List.append_assoc] at hall
        rw [components_slice hall, List.reverse_cons]

/-- A path with a last component other than the root has a directory above it. -/
theorem exists_parent? {k : PathKey} {c : Component}
    (h : p.components = k ++ [c]) (hc : c ≠ .root) :
    ∃ q, p.parent? = some q ∧ q.components = k := by
  have hsome : ∃ q, p.parent? = some q := by
    rw [components] at h
    obtain ⟨before, rest, hspans, -, hrest⟩ := List.map_eq_append_iff.mp h
    obtain ⟨last, hlast, hcomponent⟩ := List.map_eq_singleton_iff.mp hrest
    rw [parent?, hspans, hlast, List.reverse_append, List.reverse_singleton, List.singleton_append]
    dsimp only
    rw [if_neg (by rw [hcomponent]; exact hc)]
    split
    · exact ⟨_, rfl⟩
    · exact ⟨_, rfl⟩
  obtain ⟨q, hq⟩ := hsome
  obtain ⟨d, -, hcomponents⟩ := components_of_parent? hq
  exact ⟨q, hq, (List.append_inj' (hcomponents.symm.trans h) rfl).1⟩

/-- Two spellings of a path have two spellings of one directory above them. -/
theorem parent?_congr {p' : Path} (hsame : p'.components = p.components) (h : p.parent? = some q) :
    ∃ q', p'.parent? = some q' ∧ q'.components = q.components := by
  obtain ⟨c, hc, hcomponents⟩ := components_of_parent? h
  exact exists_parent? (hsame.trans hcomponents) hc

/-- The directory above an absolute path is absolute, and that of a relative path is not. -/
theorem isAbsolute_of_parent? (h : p.parent? = some q) : q.isAbsolute = p.isAbsolute := by
  obtain ⟨c, hc, hcomponents⟩ := components_of_parent? h
  rw [Bool.eq_iff_iff, isAbsolute_iff, isAbsolute_iff, hcomponents]
  cases q.components with
  | nil => simp [hc]
  | cons d ds => rfl

/-- **The moves to the directory above are the first moves to the path.** -/
theorem hops_of_parent? (h : p.parent? = some q) : q.hops <+: p.hops := by
  obtain ⟨c, -, hcomponents⟩ := components_of_parent? h
  rw [hops, hops, hcomponents, List.filterMap_append]
  exact List.prefix_append _ _

end Path
end AnalysisRunner
