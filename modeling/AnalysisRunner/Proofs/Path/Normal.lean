import AnalysisRunner.Path.Basic
import AnalysisRunner.Proofs.Text.Utf8

/-!
# The key of a file

Two spellings of a path have one key exactly when they name the same components
(`normal_eq_iff`), provided that both are text; a key is text, and what is not text in a
path is lost in it.

There are two steps.  The spelling of a component list can be read back
(`components_spelling`): its segments are the bytes of its components.  And what is spelled
from the components of a text is text again (`isText_spelling_components`), because a
separator never falls inside a character; so nothing is lost when it is shown.
-/

namespace AnalysisRunner

/-! ## 1. Bytes that are text -/

namespace Bytes

/-- Whether bytes are those of a text. -/
def IsText (bytes : Bytes) : Prop :=
  ∃ text, bytes = ofText text

theorem isText_nil : IsText [] :=
  ⟨"", rfl⟩

theorem IsText.append {a b : Bytes} (ha : a.IsText) (hb : b.IsText) : IsText (a ++ b) := by
  obtain ⟨s, rfl⟩ := ha
  obtain ⟨t, rfl⟩ := hb
  refine ⟨s ++ t, ?_⟩
  rw [ofText, ofText, ofText, String.toList_append, List.flatMap_append]

theorem isText_utf8EncodeChar (c : Char) : IsText (String.utf8EncodeChar c) := by
  refine ⟨String.ofList [c], ?_⟩
  rw [ofText, String.toList_ofList, List.flatMap_cons, List.flatMap_nil, List.append_nil]

/-- A text is shown as it is. -/
theorem shown_ofText (text : String) : (ofText text).shown = text := by
  rw [shown, pieces_ofText, List.map_map]
  show String.ofList (text.toList.map fun c => c) = text
  rw [List.map_id', String.ofList_toList]

/-- Different texts are shown differently. -/
theorem IsText.eq_of_shown {a b : Bytes} (ha : a.IsText) (hb : b.IsText)
    (h : a.shown = b.shown) : a = b := by
  obtain ⟨s, rfl⟩ := ha
  obtain ⟨t, rfl⟩ := hb
  rw [shown_ofText, shown_ofText] at h
  rw [h]

/-- Only the separator itself is written with the byte of the separator. -/
theorem slash_notMem_utf8EncodeChar {c : Char} (h : c ≠ '/') :
    slash ∉ String.utf8EncodeChar c := by
  have hne : c.val.toNat ≠ 47 := by
    intro hval
    apply h
    rw [← Char.ofNat_toNat c]
    show Char.ofNat c.val.toNat = '/'
    rw [hval]
  have hbyte : ∀ n, n < 256 → n ≠ 47 → slash ≠ UInt8.ofNat n := by
    intro n hn hslash heq
    have hnat := congrArg UInt8.toNat heq
    rw [UInt8.toNat_ofNat', Nat.mod_eq_of_lt hn] at hnat
    exact hslash hnat.symm
  unfold String.utf8EncodeChar
  generalize c.val.toNat = v at hne
  by_cases h1 : v ≤ 127
  · rw [if_pos h1, List.mem_singleton]
    exact hbyte v (by omega) hne
  · rw [if_neg h1]
    by_cases h2 : v ≤ 2047
    · rw [if_pos h2]
      simp only [List.mem_cons, List.not_mem_nil, or_false, not_or]
      exact ⟨hbyte _ (by omega) (by omega), hbyte _ (by omega) (by omega)⟩
    · rw [if_neg h2]
      by_cases h3 : v ≤ 65535
      · rw [if_pos h3]
        simp only [List.mem_cons, List.not_mem_nil, or_false, not_or]
        exact ⟨hbyte _ (by omega) (by omega), hbyte _ (by omega) (by omega),
          hbyte _ (by omega) (by omega)⟩
      · rw [if_neg h3]
        simp only [List.mem_cons, List.not_mem_nil, or_false, not_or]
        exact ⟨hbyte _ (by omega) (by omega), hbyte _ (by omega) (by omega),
          hbyte _ (by omega) (by omega), hbyte _ (by omega) (by omega)⟩

end Bytes

namespace Path

/-! ## 2. Segments -/

theorem segments_slash (rest : Bytes) : segments (slash :: rest) = [] :: segments rest := by
  rw [segments, if_pos rfl]

theorem segments_ne_nil (bytes : Bytes) : segments bytes ≠ [] := by
  cases bytes with
  | nil => exact List.cons_ne_nil _ _
  | cons b rest =>
    rw [segments]
    split
    · exact List.cons_ne_nil _ _
    · split <;> exact List.cons_ne_nil _ _

/-- Bytes without a separator are put in front of the first segment. -/
theorem segments_append {bytes rest s : Bytes} {ss : List Bytes} (h : slash ∉ bytes)
    (hrest : segments rest = s :: ss) : segments (bytes ++ rest) = (bytes ++ s) :: ss := by
  induction bytes with
  | nil => exact hrest
  | cons b bytes ih =>
    rw [List.mem_cons, not_or] at h
    rw [List.cons_append, segments, if_neg (Ne.symm h.1), ih h.2, List.cons_append]

theorem segments_of_notMem {bytes : Bytes} (h : slash ∉ bytes) : segments bytes = [bytes] := by
  have happend := segments_append h (show segments [] = [[]] from rfl)
  rwa [List.append_nil] at happend

theorem segments_append_slash {bytes : Bytes} (h : slash ∉ bytes) (rest : Bytes) :
    segments (bytes ++ slash :: rest) = bytes :: segments rest := by
  rw [segments_append h (segments_slash rest), List.append_nil]

theorem slash_notMem_of_mem_segments {bytes s : Bytes} (h : s ∈ segments bytes) : slash ∉ s := by
  induction bytes generalizing s with
  | nil =>
    rw [segments, List.mem_singleton] at h
    rw [h]
    exact List.not_mem_nil
  | cons b rest ih =>
    rw [segments] at h
    split at h
    · rcases List.mem_cons.mp h with rfl | h
      · exact List.not_mem_nil
      · exact ih h
    · rename_i hb
      cases hrest : segments rest with
      | nil => exact absurd hrest (segments_ne_nil rest)
      | cons first others =>
        rw [hrest] at h ih
        rcases List.mem_cons.mp h with rfl | h
        · rw [List.mem_cons, not_or]
          exact ⟨Ne.symm hb, ih (List.mem_cons_self ..)⟩
        · exact ih (List.mem_cons_of_mem _ h)

/-- A separator never falls inside a character, so the segments of a text are texts. -/
theorem isText_of_mem_segments {bytes s : Bytes} (htext : bytes.IsText) (h : s ∈ segments bytes) :
    s.IsText := by
  obtain ⟨text, rfl⟩ := htext
  rw [Bytes.ofText] at h
  generalize text.toList = cs at h
  induction cs generalizing s with
  | nil =>
    rw [List.flatMap_nil, segments, List.mem_singleton] at h
    rw [h]
    exact Bytes.isText_nil
  | cons c cs ih =>
    rw [List.flatMap_cons] at h
    by_cases hc : c = '/'
    · have hslash : String.utf8EncodeChar c = [slash] := by
        rw [hc]
        rfl
      rw [hslash, List.singleton_append, segments_slash] at h
      rcases List.mem_cons.mp h with rfl | h
      · exact Bytes.isText_nil
      · exact ih h
    · cases hrest : segments (cs.flatMap String.utf8EncodeChar) with
      | nil => exact absurd hrest (segments_ne_nil _)
      | cons first others =>
        rw [segments_append (Bytes.slash_notMem_utf8EncodeChar hc) hrest] at h
        rw [hrest] at ih
        rcases List.mem_cons.mp h with rfl | h
        · exact (Bytes.isText_utf8EncodeChar c).append (ih (List.mem_cons_self ..))
        · exact ih (List.mem_cons_of_mem _ h)

/-! ## 3. Components -/

theorem bytes_of_component? {s : Bytes} {c : Component} (h : component? s = some c) :
    c.bytes = s := by
  unfold component? at h
  split at h
  · cases h
  · split at h
    · rename_i hparent
      rw [← Option.some.inj h, hparent]
      rfl
    · rw [← Option.some.inj h]
      rfl

theorem map_component_spansFrom (start : Nat) (parts : List Bytes) :
    (spansFrom start parts).map Span.component = parts.filterMap component? := by
  induction parts generalizing start with
  | nil => rfl
  | cons s rest ih =>
    rw [spansFrom, List.filterMap_cons]
    cases component? s with
    | none => exact ih _
    | some c =>
      dsimp only
      rw [List.map_cons, ih]

/-- What a path begins with: the root, a dot, or neither. -/
def lead (p : Path) : PathKey :=
  if p.bytes.head? = some slash then [.root]
  else if (segments p.bytes).head? = some [dot] then [.current]
  else []

/-- The components of a path, by its segments. -/
theorem components_eq (p : Path) :
    p.components = p.lead ++ (segments p.bytes).filterMap component? := by
  rw [components, spans, List.map_append, map_component_spansFrom, lead]
  congr 1
  split
  · rfl
  · split <;> rfl

theorem component?_ne_root (s : Bytes) : component? s ≠ some .root := by
  unfold component?
  split
  · simp
  · split <;> simp

theorem isAbsolute_iff (p : Path) : p.isAbsolute = true ↔ p.components.head? = some .root := by
  rw [isAbsolute, decide_eq_true_iff, components_eq, lead]
  constructor
  · intro hslash
    rw [if_pos hslash]
    rfl
  · intro hroot
    split at hroot
    · assumption
    · split at hroot
      · cases hroot
      · obtain ⟨s, -, hs⟩ := List.mem_filterMap.mp (List.mem_of_mem_head? hroot)
        exact absurd hs (component?_ne_root s)

end Path

/-- Whether a component may stand anywhere in a path: its bytes spell it, and no separator
is in them. -/
def Component.IsInner (c : Component) : Prop :=
  Path.component? c.bytes = some c ∧ slash ∉ c.bytes

/-- Whether a component list is that of some path: only its first component may be the
root or a dot. -/
def PathKey.IsProper (k : PathKey) : Prop :=
  ∃ first inner, k = first ++ inner ∧ (first = [] ∨ first = [.root] ∨ first = [.current]) ∧
    ∀ c ∈ inner, c.IsInner

namespace Path

theorem isProper_components (p : Path) : PathKey.IsProper p.components := by
  refine ⟨p.lead, _, p.components_eq, ?_, ?_⟩
  · unfold lead
    split
    · exact .inr (.inl rfl)
    · split
      · exact .inr (.inr rfl)
      · exact .inl rfl
  · intro c hc
    obtain ⟨s, hs, hsc⟩ := List.mem_filterMap.mp hc
    have hbytes := bytes_of_component? hsc
    rw [Component.IsInner, hbytes]
    exact ⟨hsc, slash_notMem_of_mem_segments hs⟩

/-! ## 4. Spelling -/

theorem spelling_root (rest : PathKey) : spelling (.root :: rest) = slash :: spelling rest := by
  cases rest <;> rfl

theorem spelling_cons {c d : Component} (h : c ≠ .root) (rest : PathKey) :
    spelling (c :: d :: rest) = c.bytes ++ slash :: spelling (d :: rest) := by
  cases c with
  | root => exact absurd rfl h
  | _ => rfl

theorem ne_root_of_isInner {c : Component} (h : c.IsInner) : c ≠ .root := by
  rintro rfl
  exact h.2 (List.mem_cons_self ..)

theorem bytes_ne_nil_of_isInner {c : Component} (h : c.IsInner) : c.bytes ≠ [] := by
  intro hnil
  have hspelled := h.1
  rw [hnil] at hspelled
  cases hspelled

theorem isAbsolute_of_isInner {c : Component} (h : c.IsInner) : isAbsolute ⟨c.bytes⟩ = false := by
  rw [isAbsolute, decide_eq_false_iff_not]
  intro hhead
  exact h.2 (List.mem_of_mem_head? hhead)

/-- The segments of a spelling are the bytes of the components. -/
theorem segments_spelling {c : Component} {cs : PathKey} (h : ∀ d ∈ c :: cs, d.IsInner) :
    segments (spelling (c :: cs)) = (c :: cs).map Component.bytes := by
  induction cs generalizing c with
  | nil => exact segments_of_notMem (h c (List.mem_cons_self ..)).2
  | cons d cs ih =>
    have hc := h c (List.mem_cons_self ..)
    rw [spelling_cons (ne_root_of_isInner hc), segments_append_slash hc.2,
      ih fun e he => h e (List.mem_cons_of_mem _ he), List.map_cons (a := c)]

theorem filterMap_segments_spelling {cs : PathKey} (h : ∀ c ∈ cs, c.IsInner) :
    (segments (spelling cs)).filterMap component? = cs := by
  cases cs with
  | nil => rfl
  | cons c cs =>
    rw [segments_spelling h, List.filterMap_map]
    have hsame : ∀ ds : PathKey, (∀ d ∈ ds, d.IsInner) →
        ds.filterMap (component? ∘ Component.bytes) = ds := by
      intro ds hds
      induction ds with
      | nil => rfl
      | cons d ds ih =>
        have hd : (component? ∘ Component.bytes) d = some d := (hds d (List.mem_cons_self ..)).1
        rw [List.filterMap_cons, hd, ih fun e he => hds e (List.mem_cons_of_mem _ he)]
    exact hsame _ h

/-- Inner components alone begin with neither the root nor a dot. -/
theorem lead_spelling {cs : PathKey} (h : ∀ c ∈ cs, c.IsInner) :
    lead ⟨spelling cs⟩ = [] := by
  cases cs with
  | nil => rfl
  | cons c cs =>
    have hc := h c (List.mem_cons_self ..)
    have hne := bytes_ne_nil_of_isInner hc
    have hhead : (spelling (c :: cs)).head? = c.bytes.head? := by
      cases cs with
      | nil => rfl
      | cons d cs =>
        rw [spelling_cons (ne_root_of_isInner hc)]
        cases hbytes : c.bytes with
        | nil => exact absurd hbytes hne
        | cons b rest => rfl
    have hslash : (spelling (c :: cs)).head? ≠ some slash := by
      rw [hhead]
      intro hs
      exact hc.2 (List.mem_of_mem_head? hs)
    have hdot : (segments (spelling (c :: cs))).head? ≠ some [dot] := by
      rw [segments_spelling h, List.map_cons, List.head?_cons]
      intro hd
      have hspelled := hc.1
      rw [Option.some.inj hd] at hspelled
      cases hspelled
    rw [lead, if_neg hslash, if_neg hdot]

/-- **The spelling of a component list names these components.** -/
theorem components_spelling {k : PathKey} (h : k.IsProper) :
    components ⟨spelling k⟩ = k := by
  obtain ⟨first, inner, rfl, hfirst, hinner⟩ := h
  rw [components_eq]
  rcases hfirst with rfl | rfl | rfl
  · rw [List.nil_append, lead_spelling hinner, filterMap_segments_spelling hinner,
      List.nil_append]
  · rw [List.singleton_append, spelling_root]
    dsimp only
    rw [segments_slash, List.filterMap_cons_none rfl, filterMap_segments_spelling hinner]
    rfl
  · cases inner with
    | nil => rfl
    | cons c cs =>
      have hsegments : segments (spelling (.current :: c :: cs)) =
          [dot] :: segments (spelling (c :: cs)) :=
        segments_append_slash (by decide) _
      rw [List.singleton_append, lead]
      dsimp only
      rw [hsegments, List.filterMap_cons_none rfl, filterMap_segments_spelling hinner,
        if_neg ?_]
      · rfl
      · intro hslash
        cases hslash

/-! ## 5. Keys -/

theorem isText_spelling {k : PathKey} (h : ∀ c ∈ k, c.bytes.IsText) : (spelling k).IsText := by
  have hslash : Bytes.IsText [slash] := ⟨"/", rfl⟩
  induction k with
  | nil => exact Bytes.isText_nil
  | cons c rest ih =>
    have ih := ih fun d hd => h d (List.mem_cons_of_mem _ hd)
    have hc := h c (List.mem_cons_self ..)
    cases rest with
    | nil => exact hc
    | cons d rest =>
      by_cases hroot : c = .root
      · rw [hroot, spelling_root]
        exact hslash.append ih
      · rw [spelling_cons hroot]
        exact hc.append (hslash.append ih)

/-- What is spelled from the components of a text is text. -/
theorem isText_spelling_components {p : Path} (h : p.bytes.IsText) :
    (spelling p.components).IsText := by
  apply isText_spelling
  intro c hc
  rw [components_eq] at hc
  rcases List.mem_append.mp hc with hc | hc
  · unfold lead at hc
    split at hc
    · rw [List.mem_singleton.mp hc]
      exact ⟨"/", rfl⟩
    · split at hc
      · rw [List.mem_singleton.mp hc]
        exact ⟨".", rfl⟩
      · cases hc
  · obtain ⟨s, hs, hsc⟩ := List.mem_filterMap.mp hc
    rw [bytes_of_component? hsc]
    exact isText_of_mem_segments h hs

/-- **Two texts have one key exactly when they name one path.** -/
theorem normal_eq_iff {p q : Path} (hp : p.bytes.IsText) (hq : q.bytes.IsText) :
    p.normal = q.normal ↔ p.components = q.components := by
  constructor
  · intro h
    have hspelling := (isText_spelling_components hp).eq_of_shown (isText_spelling_components hq) h
    rw [← components_spelling p.isProper_components, ← components_spelling q.isProper_components,
      hspelling]
  · intro h
    rw [normal, normal, h]

end Path
end AnalysisRunner
