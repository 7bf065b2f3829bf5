import Mathlib.Data.List.Basic
import Mathlib.Data.List.Induction

/-!
# Lists without repetitions

Of a list in which things may come again, `eraseDups` keeps the first of each.  So one more thing
at the end makes a difference only if it is new, and nothing is left twice.
-/

namespace AnalysisRunner

variable {α : Type} [BEq α] [LawfulBEq α]

theorem eraseDups_concat (as : List α) (a : α) :
    (as ++ [a]).eraseDups = if a ∈ as then as.eraseDups else as.eraseDups ++ [a] := by
  rw [List.eraseDups_append, List.cons_removeAll, List.nil_removeAll]
  by_cases ha : a ∈ as
  · simp [ha]
  · simp [ha, List.eraseDups_cons]

theorem nodup_eraseDups (as : List α) : as.eraseDups.Nodup := by
  induction as using List.reverseRecOn with
  | nil => exact List.nodup_nil
  | append_singleton as a ih =>
    rw [eraseDups_concat]
    split
    · exact ih
    · rename_i ha
      have hdisjoint : ∀ b ∈ as.eraseDups, ∀ d ∈ [a], b ≠ d := by
        intro b hb d hd hbd
        rw [hbd, List.mem_singleton.mp hd] at hb
        exact ha (List.mem_eraseDups.mp hb)
      exact List.nodup_append.mpr ⟨ih, List.pairwise_singleton _ a, hdisjoint⟩

end AnalysisRunner
