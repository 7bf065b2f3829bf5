import Mathlib.Algebra.Group.Nat.Defs
import AnalysisRunner.Time.Duration

/-!
# Lengths of time on a clock

A length of time is any number of milliseconds, and a clock shows sixty-four bits.  Where the two
meet, two things can be lost: a length is cut before it is used (`Duration.ticks`,
`Duration.span`), and a sum of a reading and a length comes out early if no clock can show it.
Nothing is lost exactly if the sum of the reading and the whole length can be shown
(`toNat_add_span_eq_iff`), and then a clock is past that sum exactly if the length is over
(`add_span_le_iff`).
-/

namespace AnalysisRunner
namespace Duration

variable {d : Duration} {since now : UInt64}

theorem ticks_le_millis (d : Duration) : d.ticks ≤ d.millis :=
  Nat.mod_le _ _

theorem ticks_lt (d : Duration) : d.ticks < 2 ^ 64 :=
  Nat.mod_lt _ (by decide)

/-- **A length is used whole exactly if it can be shown.** -/
theorem ticks_eq_millis_iff : d.ticks = d.millis ↔ d.millis < 2 ^ 64 :=
  ⟨fun h => h ▸ d.ticks_lt, fun h => Nat.mod_eq_of_lt h⟩

theorem toNat_add_span (d : Duration) (since : UInt64) :
    (since + d.span).toNat = (since.toNat + d.millis) % 2 ^ 64 := by
  rw [UInt64.toNat_add, span, Nat.toUInt64_eq, UInt64.toNat_ofNat', Nat.add_mod_mod]

/-- **A deadline is the true one exactly if a clock can show it.** -/
theorem toNat_add_span_eq_iff :
    (since + d.span).toNat = since.toNat + d.millis ↔ since.toNat + d.millis < 2 ^ 64 := by
  rw [toNat_add_span]
  exact ⟨fun h => h ▸ Nat.mod_lt _ (by decide), Nat.mod_eq_of_lt⟩

theorem add_span_le_iff (h : since.toNat + d.millis < 2 ^ 64) :
    since + d.span ≤ now ↔ since.toNat + d.millis ≤ now.toNat := by
  rw [UInt64.le_iff_toNat_le, toNat_add_span_eq_iff.mpr h]

end Duration
end AnalysisRunner
