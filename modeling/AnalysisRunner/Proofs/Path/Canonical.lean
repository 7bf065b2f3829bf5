import Mathlib.Data.List.Basic
import AnalysisRunner.Proofs.Path.Join

/-!
# Keys of files are canonical

The key of a path is itself a path, and it names what the path names (`components_ofText_normal`).
So the key of a key is the key again, and two texts have one key exactly when they name one path.

A key needs no look at what comes later.  It is what one gets by joining the components one after
the other, where a dot is kept only if nothing is in front of it (`bytes_rebuilt`).  A separator is
joined in between unless one is there already, and that is so behind the root only: every other
component ends in a byte that is no separator (`foldl_push`).
-/

namespace AnalysisRunner
namespace Path

/-! ## 1. Joining components -/

/-- One component more behind a path; a dot counts only in front. -/
def push (out : Path) : Component → Path
  | .current => if out.bytes = [] then out.join ⟨[dot]⟩ else out
  | c => out.join ⟨c.bytes⟩

/-- The components of a path, joined one after the other. -/
def rebuilt (p : Path) : Path :=
  p.components.foldl push ⟨[]⟩

variable {c : Component} {bytes : Bytes}

theorem push_nil (c : Component) : push ⟨[]⟩ c = ⟨c.bytes⟩ := by
  cases c with
  | name name => exact if_pos (.inr rfl)
  | _ => rfl

theorem push_inner (h : c.IsInner) (out : Path) : out.push c = out.join ⟨c.bytes⟩ := by
  cases c with
  | current => exact absurd h.1 (by decide)
  | _ => rfl

/-- Behind the root no separator is joined. -/
theorem push_root (h : c.IsInner) : push ⟨[slash]⟩ c = ⟨slash :: c.bytes⟩ := by
  have hlast : List.getLast? [slash] = some slash := rfl
  rw [push_inner h, join, isAbsolute_of_isInner h, if_neg (by simp), if_pos hlast]
  rfl

theorem push_of_getLast? (h : c.IsInner) (hne : bytes ≠ []) (hlast : bytes.getLast? ≠ some slash) :
    push ⟨bytes⟩ c = ⟨bytes ++ slash :: c.bytes⟩ := by
  rw [push_inner h, join, isAbsolute_of_isInner h, if_neg (by simp [hne]), if_neg hlast]

/-- Behind anything that does not end in a separator each component brings one along. -/
theorem foldl_push {cs : PathKey} (h : ∀ c ∈ cs, c.IsInner) (hne : bytes ≠ [])
    (hlast : bytes.getLast? ≠ some slash) :
    cs.foldl push ⟨bytes⟩ = ⟨bytes ++ cs.flatMap fun c => slash :: c.bytes⟩ := by
  induction cs generalizing bytes with
  | nil => rw [List.foldl_nil, List.flatMap_nil, List.append_nil]
  | cons c cs ih =>
    have hc := h c (List.mem_cons_self ..)
    have hends : (bytes ++ slash :: c.bytes).getLast? ≠ some slash := by
      rw [← List.singleton_append, ← List.append_assoc,
        List.getLast?_append_of_ne_nil _ (bytes_ne_nil_of_isInner hc)]
      exact fun hslash => hc.2 (List.mem_of_getLast? hslash)
    rw [List.foldl_cons, push_of_getLast? hc hne hlast,
      ih (fun d hd => h d (List.mem_cons_of_mem _ hd)) (by simp) hends, List.flatMap_cons,
      List.append_assoc]

theorem spelling_eq_flatMap {cs : PathKey} (hc : c ≠ .root) (h : ∀ d ∈ cs, d.IsInner) :
    spelling (c :: cs) = c.bytes ++ cs.flatMap fun d => slash :: d.bytes := by
  induction cs generalizing c with
  | nil => rw [List.flatMap_nil, List.append_nil, spelling]
  | cons d cs ih =>
    rw [spelling_cons hc, ih (ne_root_of_isInner (h d (List.mem_cons_self ..)))
      fun e he => h e (List.mem_cons_of_mem _ he)]
    rfl

/-- Joining the components of a proper list spells it. -/
theorem foldl_push_of_isProper {k : PathKey} (h : k.IsProper) :
    k.foldl push ⟨[]⟩ = ⟨spelling k⟩ := by
  obtain ⟨first, inner, rfl, hfirst, hinner⟩ := h
  cases inner with
  | nil =>
    rcases hfirst with rfl | rfl | rfl
    · rfl
    · rfl
    · rfl
  | cons c cs =>
    have hc := hinner c (List.mem_cons_self ..)
    have hcs : ∀ d ∈ cs, d.IsInner := fun d hd => hinner d (List.mem_cons_of_mem _ hd)
    have hlast : c.bytes.getLast? ≠ some slash := fun hslash => hc.2 (List.mem_of_getLast? hslash)
    rcases hfirst with rfl | rfl | rfl
    · rw [List.nil_append, List.foldl_cons, push_nil,
        foldl_push hcs (bytes_ne_nil_of_isInner hc) hlast,
        spelling_eq_flatMap (ne_root_of_isInner hc) hcs]
    · have hends : (slash :: c.bytes).getLast? ≠ some slash := by
        rwa [← List.singleton_append, List.getLast?_append_of_ne_nil _ (bytes_ne_nil_of_isInner hc)]
      rw [List.singleton_append, List.foldl_cons, push_nil, List.foldl_cons,
        Component.bytes, push_root hc, foldl_push hcs (List.cons_ne_nil _ _) hends, spelling_root,
        spelling_eq_flatMap (ne_root_of_isInner hc) hcs, List.cons_append]
    · have hne : Component.current.bytes ≠ [] := List.cons_ne_nil _ _
      have hdot : Component.current.bytes.getLast? ≠ some slash := by decide
      rw [List.singleton_append, List.foldl_cons, push_nil, foldl_push hinner hne hdot,
        spelling_eq_flatMap (by simp) hinner]

/-- **Joining the components of a path spells its key.** -/
theorem bytes_rebuilt (p : Path) : p.rebuilt.bytes = spelling p.components := by
  rw [rebuilt, foldl_push_of_isProper p.isProper_components]

/-! ## 2. Keys as paths -/

theorem ofText_normal {p : Path} (h : p.bytes.IsText) :
    ofText p.normal = ⟨spelling p.components⟩ := by
  obtain ⟨text, htext⟩ := isText_spelling_components h
  rw [ofText, normal, htext, Bytes.shown_ofText]

/-- **A key names what the path names.** -/
theorem components_ofText_normal {p : Path} (h : p.bytes.IsText) :
    (ofText p.normal).components = p.components := by
  rw [ofText_normal h, components_spelling p.isProper_components]

/-- **Keys are canonical**: two texts have one key exactly when they name one path, a key is its own
key, and it is what joining the components gives. -/
theorem keys_are_canonical (s t : String) :
    ((ofText s).normal = (ofText t).normal ↔ (ofText s).components = (ofText t).components) ∧
      (ofText (ofText s).normal).normal = (ofText s).normal ∧
      (ofText s).normal = (ofText s).rebuilt.shown := by
  have htext : ∀ text, (ofText text).bytes.IsText := fun text => ⟨text, rfl⟩
  refine ⟨normal_eq_iff (htext s) (htext t), ?_, ?_⟩
  · exact (normal_eq_iff (htext _) (htext s)).mpr (components_ofText_normal (htext s))
  · rw [normal, shown, bytes_rebuilt]

example : (ofText "./a//../b/./c.sol/").normal = "./a/../b/c.sol" := by
  decide

end Path
end AnalysisRunner
