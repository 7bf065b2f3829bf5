import Mathlib.Algebra.Order.Field.Power
import Mathlib.Algebra.Order.Ring.Rat
import Mathlib.Data.Nat.Cast.Order.Field
import Mathlib.Tactic.FieldSimp
import Mathlib.Tactic.Linarith
import Mathlib.Tactic.NormNum
import Mathlib.Tactic.Positivity
import Mathlib.Tactic.Ring
import AnalysisRunner.Number.Shortest

/-!
# Different numbers have different shortest decimals

Around every positive number of the format lies the interval of those rationals that
round to it (`Binary64.Rounds`).  Two facts make the shortest decimal a name of its
number.

* The intervals of different numbers have no point in common (`eq_of_rounds`).  Numbers
  of one exponent are a unit apart, and each reaches half a unit to each side; at a power
  of two, where the unit doubles, the upper number reaches down a quarter of its own.
  Where two intervals touch, one of the mantissas is odd and its interval is open.
* The shortest decimal of a number lies in its interval (`rounds_shortest`).  With
  seventeen digits the grid of decimals is finer than the unit of the number, so one of
  the two neighbours is close enough: the search cannot come back empty.

Everything is said in rationals; the ratios of naturals that the search works with are
read as such by `ratioValue`.
-/

namespace AnalysisRunner

/-! ## 1. Ratios as rationals -/

/-- The rational that a ratio of naturals stands for. -/
def ratioValue (r : Nat × Nat) : ℚ :=
  r.1 / r.2

/-- The rational that a decimal stands for. -/
def Decimal.value (d : Decimal) : ℚ :=
  d.digits * 10 ^ d.exponent

namespace Binary64

/-- The magnitude of a number. -/
def magnitude (x : Binary64) : ℚ :=
  x.mantissa * 2 ^ x.exponent

theorem ratioValue_multiple (n : Nat) (e : Int) : ratioValue (multiple n e) = n * 2 ^ e := by
  unfold ratioValue multiple
  split
  · rename_i h
    obtain ⟨k, rfl⟩ := Int.eq_ofNat_of_zero_le h
    simp
  · rename_i h
    obtain ⟨k, rfl⟩ := Int.exists_eq_neg_ofNat (by omega : e ≤ 0)
    simp [div_eq_mul_inv]

theorem multiple_snd_pos (n : Nat) (e : Int) : 0 < (multiple n e).2 := by
  unfold multiple
  split
  · exact Nat.one_pos
  · exact Nat.two_pow_pos _

theorem ratioValue_ratio (x : Binary64) : ratioValue x.ratio = x.magnitude :=
  ratioValue_multiple x.mantissa x.exponent

end Binary64

namespace Decimal

theorem ratioValue_scale (n : Nat) (e : Int) : ratioValue (scale n e) = n * 10 ^ e := by
  unfold ratioValue scale
  split
  · rename_i h
    obtain ⟨k, rfl⟩ := Int.eq_ofNat_of_zero_le h
    simp
  · rename_i h
    obtain ⟨k, rfl⟩ := Int.exists_eq_neg_ofNat (by omega : e ≤ 0)
    simp [div_eq_mul_inv]

theorem scale_snd_pos (n : Nat) (e : Int) : 0 < (scale n e).2 := by
  unfold scale
  split
  · exact Nat.one_pos
  · exact Nat.pow_pos (by decide)

theorem ratioLE_iff {x y : Nat × Nat} (hx : 0 < x.2) (hy : 0 < y.2) :
    ratioLE x y = true ↔ ratioValue x ≤ ratioValue y := by
  have hx' : (0 : ℚ) < x.2 := by exact_mod_cast hx
  have hy' : (0 : ℚ) < y.2 := by exact_mod_cast hy
  rw [ratioLE, decide_eq_true_iff, ratioValue, ratioValue, div_le_div_iff₀ hx' hy']
  exact_mod_cast Iff.rfl

theorem not_ratioLE_iff {x y : Nat × Nat} (hx : 0 < x.2) (hy : 0 < y.2) :
    (!ratioLE x y) = true ↔ ratioValue y < ratioValue x := by
  rw [Bool.not_eq_true', ← Bool.not_eq_true, ratioLE_iff hx hy, not_le]

end Decimal

/-! ## 2. The interval of a number -/

namespace Binary64

theorem isFormat_iff {m : Nat} {e : Int} :
    IsFormat m e ↔ m < 2 ^ 53 ∧ -1074 ≤ e ∧ e ≤ 971 ∧ (2 ^ 52 ≤ m ∨ e = -1074) :=
  Iff.rfl

theorem quarterBounds_eq (x : Binary64) :
    Decimal.quarterBounds x =
      (4 * x.mantissa - if x.mantissa = 2 ^ 52 ∧ -1074 < x.exponent then 1 else 2,
        4 * x.mantissa + 2) :=
  rfl

/-- The lower end of the interval of a number. -/
def low (x : Binary64) : ℚ :=
  (Decimal.quarterBounds x).1 / 4 * 2 ^ x.exponent

/-- The upper end of the interval of a number. -/
def high (x : Binary64) : ℚ :=
  (Decimal.quarterBounds x).2 / 4 * 2 ^ x.exponent

/-- Whether a rational rounds to a number: it lies in the interval, and not at an end of
it if the mantissa is odd. -/
structure Rounds (x : Binary64) (q : ℚ) : Prop where
  low_le : x.low ≤ q
  le_high : q ≤ x.high
  low_lt : x.mantissa % 2 = 1 → x.low < q
  lt_high : x.mantissa % 2 = 1 → q < x.high

/-- What is inside the interval rounds to the number. -/
theorem Rounds.of_lt {x : Binary64} {q : ℚ} (hlow : x.low < q) (hhigh : q < x.high) :
    x.Rounds q :=
  ⟨hlow.le, hhigh.le, fun _ => hlow, fun _ => hhigh⟩

theorem high_eq (x : Binary64) : x.high = (x.mantissa + 1 / 2) * 2 ^ x.exponent := by
  rw [high, quarterBounds_eq]
  push_cast
  ring

/-- Half a unit down, or a quarter of one at a power of two. -/
theorem low_eq {x : Binary64} (hx : x.mantissa ≠ 0) :
    x.low = if x.mantissa = 2 ^ 52 ∧ -1074 < x.exponent then
      ((x.mantissa : ℚ) - 1 / 4) * 2 ^ x.exponent
      else ((x.mantissa : ℚ) - 1 / 2) * 2 ^ x.exponent := by
  have hpos : 1 ≤ x.mantissa := Nat.one_le_iff_ne_zero.mpr hx
  rw [low, quarterBounds_eq]
  dsimp only
  split
  · rw [Nat.cast_sub (by omega)]
    push_cast
    ring
  · rw [Nat.cast_sub (by omega)]
    push_cast
    ring

theorem sub_half_le_low {x : Binary64} (hx : x.mantissa ≠ 0) :
    ((x.mantissa : ℚ) - 1 / 2) * 2 ^ x.exponent ≤ x.low := by
  have hunit : (0 : ℚ) < 2 ^ x.exponent := by positivity
  rw [low_eq hx]
  split
  · exact mul_le_mul_of_nonneg_right (by linarith) hunit.le
  · exact le_refl _

theorem low_pos {x : Binary64} (hx : x.mantissa ≠ 0) : 0 < x.low := by
  have hunit : (0 : ℚ) < 2 ^ x.exponent := by positivity
  have hm : (1 : ℚ) ≤ x.mantissa := by exact_mod_cast Nat.one_le_iff_ne_zero.mpr hx
  refine lt_of_lt_of_le ?_ (sub_half_le_low hx)
  exact mul_pos (by linarith) hunit

/-! ## 3. Intervals do not meet -/

/-- Numbers of one exponent: the intervals touch at most, and only around an odd
mantissa. -/
theorem high_le_low_of_mantissa_lt {x y : Binary64} (he : x.exponent = y.exponent)
    (hm : x.mantissa < y.mantissa) :
    x.high ≤ y.low ∧ (x.mantissa % 2 = 0 → y.mantissa % 2 = 0 → x.high < y.low) := by
  have hunit : (0 : ℚ) < 2 ^ y.exponent := by positivity
  have hlow := sub_half_le_low (x := y) (by omega)
  have hstep : (x.mantissa : ℚ) + 1 ≤ y.mantissa := by exact_mod_cast hm
  rw [high_eq, he]
  constructor
  · exact (mul_le_mul_of_nonneg_right (by linarith) hunit.le).trans hlow
  · intro hx hy
    have htwo : (x.mantissa : ℚ) + 2 ≤ y.mantissa := by
      exact_mod_cast (by omega : x.mantissa + 2 ≤ y.mantissa)
    exact lt_of_lt_of_le (mul_lt_mul_of_pos_right (by linarith) hunit) hlow

/-- Numbers of different exponents: the greatest mantissa is odd, so an even one stays
clear of the next power of two. -/
theorem high_le_low_of_exponent_lt {x y : Binary64} (he : x.exponent < y.exponent) :
    x.high ≤ y.low ∧ (x.mantissa % 2 = 0 → x.high < y.low) := by
  obtain ⟨hxm, hxe, -, -⟩ := isFormat_iff.mp x.format
  obtain ⟨-, -, -, hym⟩ := isFormat_iff.mp y.format
  have hy : 2 ^ 52 ≤ y.mantissa := by
    rcases hym with h | h
    · exact h
    · omega
  have hunit : (0 : ℚ) < 2 ^ x.exponent := by positivity
  have hdouble : 2 * (2 : ℚ) ^ x.exponent ≤ 2 ^ y.exponent := by
    calc 2 * (2 : ℚ) ^ x.exponent = 2 ^ (x.exponent + 1) := by
          rw [zpow_add₀ (by norm_num), zpow_one, mul_comm]
      _ ≤ 2 ^ y.exponent := zpow_le_zpow_right₀ (by norm_num) (by omega)
  have hlow : (2 ^ 53 - 1 / 2) * 2 ^ x.exponent ≤ y.low := by
    have hquarter : ((2 : ℚ) ^ 52 - 1 / 4) * 2 ^ y.exponent ≤ y.low := by
      rw [low_eq (by omega)]
      split
      · rename_i h
        rw [h.1]
        push_cast
        exact le_refl _
      · rename_i h
        have hmore : (2 : ℚ) ^ 52 + 1 ≤ y.mantissa := by
          have hne : y.mantissa ≠ 2 ^ 52 := fun heq => h ⟨heq, by omega⟩
          exact_mod_cast (by omega : 2 ^ 52 + 1 ≤ y.mantissa)
        exact mul_le_mul_of_nonneg_right (by linarith) (by positivity)
    calc ((2 : ℚ) ^ 53 - 1 / 2) * 2 ^ x.exponent
        = (2 ^ 52 - 1 / 4) * (2 * 2 ^ x.exponent) := by ring
      _ ≤ (2 ^ 52 - 1 / 4) * 2 ^ y.exponent :=
          mul_le_mul_of_nonneg_left hdouble (by norm_num)
      _ ≤ y.low := hquarter
  rw [high_eq]
  constructor
  · have hmost : (x.mantissa : ℚ) + 1 ≤ 2 ^ 53 := by exact_mod_cast hxm
    exact (mul_le_mul_of_nonneg_right (by linarith) hunit.le).trans hlow
  · intro heven
    have hmost : (x.mantissa : ℚ) + 2 ≤ 2 ^ 53 := by
      exact_mod_cast (by omega : x.mantissa + 2 ≤ 2 ^ 53)
    exact lt_of_lt_of_le (mul_lt_mul_of_pos_right (by linarith) hunit) hlow

/-- A rational that rounds to both of two numbers rounds to one where their intervals
would touch. -/
theorem not_rounds_of_high_le_low {x y : Binary64} {q : ℚ} (hle : x.high ≤ y.low)
    (hlt : x.mantissa % 2 = 0 → y.mantissa % 2 = 0 → x.high < y.low) (hx : x.Rounds q)
    (hy : y.Rounds q) : False := by
  rcases Nat.mod_two_eq_zero_or_one x.mantissa with hx0 | hx1
  · rcases Nat.mod_two_eq_zero_or_one y.mantissa with hy0 | hy1
    · linarith [hlt hx0 hy0, hx.le_high, hy.low_le]
    · linarith [hx.le_high, hy.low_lt hy1]
  · linarith [hx.lt_high hx1, hy.low_le]

/-- **A rational rounds to one number only**, signs apart. -/
theorem eq_of_rounds {x y : Binary64} {q : ℚ} (hx : x.Rounds q) (hy : y.Rounds q) :
    x.mantissa = y.mantissa ∧ x.exponent = y.exponent := by
  rcases lt_trichotomy x.exponent y.exponent with he | he | he
  · obtain ⟨hle, hlt⟩ := high_le_low_of_exponent_lt he
    exact (not_rounds_of_high_le_low hle (fun h _ => hlt h) hx hy).elim
  · rcases lt_trichotomy x.mantissa y.mantissa with hm | hm | hm
    · obtain ⟨hle, hlt⟩ := high_le_low_of_mantissa_lt he hm
      exact (not_rounds_of_high_le_low hle hlt hx hy).elim
    · exact ⟨hm, he⟩
    · obtain ⟨hle, hlt⟩ := high_le_low_of_mantissa_lt he.symm hm
      exact (not_rounds_of_high_le_low hle hlt hy hx).elim
  · obtain ⟨hle, hlt⟩ := high_le_low_of_exponent_lt he
    exact (not_rounds_of_high_le_low hle (fun h _ => hlt h) hy hx).elim

end Binary64

/-! ## 4. The search -/

namespace Decimal

theorem quarters_snd_pos (x : Binary64) (n : Nat) : 0 < (quarters x n).2 :=
  Nat.mul_pos (Binary64.multiple_snd_pos n x.exponent) (by decide)

theorem ratioValue_quarters (x : Binary64) (n : Nat) :
    ratioValue (quarters x n) = n / 4 * 2 ^ x.exponent := by
  have h := Binary64.ratioValue_multiple n x.exponent
  unfold ratioValue at h
  unfold ratioValue quarters
  push_cast
  rw [← div_div, h]
  ring

/-- The test against the interval. -/
theorem readsBack_iff (x : Binary64) {r : Nat × Nat} (hr : 0 < r.2) :
    readsBack x r = true ↔ x.Rounds (ratioValue r) := by
  have hlow : ratioValue (quarters x (quarterBounds x).1) = x.low := ratioValue_quarters x _
  have hhigh : ratioValue (quarters x (quarterBounds x).2) = x.high := ratioValue_quarters x _
  unfold readsBack
  dsimp only
  split
  · rename_i heven
    rw [Bool.and_eq_true, ratioLE_iff (quarters_snd_pos x _) hr,
      ratioLE_iff hr (quarters_snd_pos x _), hlow, hhigh]
    constructor
    · rintro ⟨h1, h2⟩
      exact ⟨h1, h2, fun h => by omega, fun h => by omega⟩
    · exact fun h => ⟨h.low_le, h.le_high⟩
  · rename_i hodd
    rw [Bool.and_eq_true, not_ratioLE_iff hr (quarters_snd_pos x _),
      not_ratioLE_iff (quarters_snd_pos x _) hr, hlow, hhigh]
    constructor
    · rintro ⟨h1, h2⟩
      exact .of_lt h1 h2
    · exact fun h => ⟨h.low_lt (by omega), h.lt_high (by omega)⟩

theorem readsBack_scale_iff (x : Binary64) (n : Nat) (e : Int) :
    readsBack x (scale n e) = true ↔ x.Rounds (n * 10 ^ e) := by
  rw [readsBack_iff x (scale_snd_pos n e), ratioValue_scale]

/-- The nearer one of two neighbours is one of them. -/
theorem nearer_eq (v : Nat × Nat) (e : Int) (n : Nat) :
    nearer v e n = n ∨ nearer v e n = n + 1 := by
  unfold nearer
  dsimp only
  split
  · exact .inl rfl
  · split
    · exact .inr rfl
    · split
      · exact .inl rfl
      · exact .inr rfl

/-- What is found on a grid rounds to the number. -/
theorem rounds_of_onGrid? {x : Binary64} {e : Int} {n : Nat} (h : onGrid? x e = some n) :
    x.Rounds (n * 10 ^ e) := by
  rw [← readsBack_scale_iff]
  unfold onGrid? at h
  dsimp only at h
  split at h
  · rename_i hlow hhigh
    obtain rfl := Option.some.inj h
    rcases nearer_eq x.ratio e (x.ratio.1 * (scale 1 e).2 / (x.ratio.2 * (scale 1 e).1)) with
      hn | hn
    · rw [hn]
      exact hlow
    · rw [hn]
      exact hhigh
  · rename_i hlow hhigh
    obtain rfl := Option.some.inj h
    exact hlow
  · rename_i hlow hhigh
    obtain rfl := Option.some.inj h
    exact hhigh
  · cases h

theorem rounds_of_search {x : Binary64} {lead : Int} {fuel count : Nat} {d : Decimal}
    (h : search x lead fuel count = some d) : x.Rounds d.value := by
  induction fuel generalizing count with
  | zero => cases h
  | succ fuel ih =>
    rw [search] at h
    split at h
    · rename_i digits hgrid
      obtain rfl := Option.some.inj h
      exact rounds_of_onGrid? hgrid
    · exact ih h

/-- A search that reaches a grid with a hit finds something. -/
theorem isSome_search {x : Binary64} {lead : Int} {fuel count k : Nat} (hk : k < fuel)
    (h : (onGrid? x (lead - ((count + k : Nat) : Int) + 1)).isSome = true) :
    (search x lead fuel count).isSome = true := by
  induction fuel generalizing count k with
  | zero => omega
  | succ fuel ih =>
    rw [search]
    split
    · rfl
    · rename_i hnone
      cases k with
      | zero =>
        rw [Nat.add_zero, hnone] at h
        cases h
      | succ k =>
        refine ih (Nat.lt_of_succ_lt_succ hk) ?_
        rw [show count + 1 + k = count + (k + 1) by omega]
        exact h

/-- Moving zeros into the exponent changes nothing. -/
theorem value_trim (fuel : Nat) (d : Decimal) : (trim fuel d).value = d.value := by
  induction fuel generalizing d with
  | zero => rfl
  | succ fuel ih =>
    rw [trim]
    split
    · rename_i h
      obtain ⟨k, hk⟩ := Nat.dvd_of_mod_eq_zero h.2
      rw [ih, value, value, hk, Nat.mul_div_cancel_left k (by decide),
        zpow_add₀ (by norm_num), zpow_one]
      push_cast
      ring
    · rfl

/-! ## 5. Seventeen digits are enough -/

theorem lt_pow_digitCount (n : Nat) : n < 10 ^ digitCount n :=
  (Nat.length_toDigits_le_iff (by decide) Nat.length_toDigits_pos).mp (Nat.le_refl _)

theorem pow_digitCount_le {n : Nat} (hn : n ≠ 0) : 10 ^ (digitCount n - 1) ≤ n := by
  by_contra hlt
  by_cases hone : digitCount n - 1 = 0
  · rw [hone] at hlt
    omega
  · have hle := (Nat.length_toDigits_le_iff (by decide) (Nat.pos_of_ne_zero hone)).mpr
      (Nat.lt_of_not_le hlt)
    have hle' : digitCount n ≤ digitCount n - 1 := hle
    omega

/-- The leading digit does not exceed the number. -/
theorem pow_leadExponent_le {x : Binary64} (hx : x.mantissa ≠ 0) :
    (10 : ℚ) ^ leadExponent x ≤ x.magnitude := by
  have hsnd : 0 < x.ratio.2 := Binary64.multiple_snd_pos _ _
  unfold leadExponent
  dsimp only
  split
  · rename_i h
    rw [ratioLE_iff (scale_snd_pos _ _) hsnd, ratioValue_scale, Nat.cast_one, one_mul,
      Binary64.ratioValue_ratio] at h
    exact h
  · have hfst : x.ratio.1 ≠ 0 := by
      unfold Binary64.ratio Binary64.multiple
      split
      · exact Nat.mul_ne_zero hx (Nat.ne_of_gt (Nat.two_pow_pos _))
      · exact hx
    have hnum : (10 : ℚ) ^ (digitCount x.ratio.1 - 1) ≤ x.ratio.1 := by
      exact_mod_cast pow_digitCount_le hfst
    have hden : (x.ratio.2 : ℚ) ≤ 10 ^ digitCount x.ratio.2 := by
      exact_mod_cast (lt_pow_digitCount x.ratio.2).le
    have hden0 : (0 : ℚ) < x.ratio.2 := by exact_mod_cast hsnd
    have hcount : 1 ≤ digitCount x.ratio.1 := Nat.length_toDigits_pos
    rw [← Binary64.ratioValue_ratio, ratioValue, le_div_iff₀ hden0]
    calc (10 : ℚ) ^ ((digitCount x.ratio.1 : Int) - digitCount x.ratio.2 - 1) * x.ratio.2
        ≤ 10 ^ ((digitCount x.ratio.1 : Int) - digitCount x.ratio.2 - 1) *
            10 ^ digitCount x.ratio.2 := mul_le_mul_of_nonneg_left hden (by positivity)
      _ = 10 ^ (digitCount x.ratio.1 - 1) := by
          rw [← zpow_natCast, ← zpow_natCast, ← zpow_add₀ (by norm_num)]
          congr 1
          omega
      _ ≤ x.ratio.1 := hnum

/-- The neighbours on a grid enclose the number. -/
theorem below_le (x : Binary64) (e : Int) :
    let below := x.ratio.1 * (scale 1 e).2 / (x.ratio.2 * (scale 1 e).1)
    (below : ℚ) * 10 ^ e ≤ x.magnitude ∧ x.magnitude < (below + 1) * 10 ^ e := by
  intro below
  have hunit : (0 : ℚ) < 10 ^ e := by positivity
  have hsnd : (0 : ℚ) < x.ratio.2 := by exact_mod_cast Binary64.multiple_snd_pos _ _
  have hscale : (0 : ℚ) < (scale 1 e).2 := by exact_mod_cast scale_snd_pos 1 e
  have hvalue : ((scale 1 e).1 : ℚ) = 10 ^ e * (scale 1 e).2 := by
    have h := ratioValue_scale 1 e
    rw [ratioValue, Nat.cast_one, one_mul] at h
    rw [← h, div_mul_cancel₀ _ hscale.ne']
  have hfst : (0 : ℚ) < (scale 1 e).1 := hvalue ▸ mul_pos hunit hscale
  have hden : 0 < x.ratio.2 * (scale 1 e).1 := by exact_mod_cast mul_pos hsnd hfst
  have hfloor : below * (x.ratio.2 * (scale 1 e).1) ≤ x.ratio.1 * (scale 1 e).2 :=
    Nat.div_mul_le_self _ _
  have hceil : x.ratio.1 * (scale 1 e).2 < (below + 1) * (x.ratio.2 * (scale 1 e).1) := by
    rw [Nat.mul_comm (below + 1)]
    exact Nat.lt_mul_div_succ _ hden
  rw [← Binary64.ratioValue_ratio, ratioValue]
  constructor
  · have h : (below : ℚ) * (x.ratio.2 * (scale 1 e).1) ≤ x.ratio.1 * (scale 1 e).2 := by
      exact_mod_cast hfloor
    rw [hvalue] at h
    rw [le_div_iff₀ hsnd]
    refine le_of_mul_le_mul_right ?_ hscale
    calc (below : ℚ) * 10 ^ e * x.ratio.2 * (scale 1 e).2
        = below * (x.ratio.2 * (10 ^ e * (scale 1 e).2)) := by ring
      _ ≤ x.ratio.1 * (scale 1 e).2 := h
  · have h : (x.ratio.1 : ℚ) * (scale 1 e).2 < (below + 1) * (x.ratio.2 * (scale 1 e).1) := by
      exact_mod_cast hceil
    rw [hvalue] at h
    rw [div_lt_iff₀ hsnd]
    refine lt_of_mul_lt_mul_right ?_ hscale.le
    calc (x.ratio.1 : ℚ) * (scale 1 e).2
        < (below + 1) * (x.ratio.2 * (10 ^ e * (scale 1 e).2)) := h
      _ = (below + 1) * 10 ^ e * x.ratio.2 * (scale 1 e).2 := by ring

/-- **The seventeenth grid has a hit.**  Its step is less than the unit of the number,
and less than half of it at a power of two. -/
theorem isSome_onGrid? {x : Binary64} (hx : x.mantissa ≠ 0) {e : Int}
    (he : (10 : ℚ) ^ e * 10 ^ 16 ≤ x.magnitude) : (onGrid? x e).isSome = true := by
  obtain ⟨hbelow, habove⟩ := below_le x e
  have hunit : (0 : ℚ) < 2 ^ x.exponent := by positivity
  have hmost : (x.mantissa : ℚ) ≤ 2 ^ 53 := by
    exact_mod_cast (Binary64.isFormat_iff.mp x.format).1.le
  have hstep : (10 : ℚ) ^ e < 2 ^ x.exponent := by
    have hle : (10 : ℚ) ^ e * 10 ^ 16 ≤ 2 ^ 53 * 2 ^ x.exponent :=
      he.trans (mul_le_mul_of_nonneg_right hmost hunit.le)
    linarith
  have hhit :
      readsBack x (scale (x.ratio.1 * (scale 1 e).2 / (x.ratio.2 * (scale 1 e).1)) e) = true ∨
      readsBack x (scale (x.ratio.1 * (scale 1 e).2 / (x.ratio.2 * (scale 1 e).1) + 1) e) =
        true := by
    rw [readsBack_scale_iff, readsBack_scale_iff]
    push_cast
    generalize x.ratio.1 * (scale 1 e).2 / (x.ratio.2 * (scale 1 e).1) = below at hbelow habove ⊢
    have hlow := Binary64.low_eq hx
    have hhigh := Binary64.high_eq x
    have hvalue : x.magnitude = x.mantissa * 2 ^ x.exponent := rfl
    by_cases hpower : x.mantissa = 2 ^ 52 ∧ -1074 < x.exponent
    · -- the upper neighbour, which is less than half a unit away
      right
      rw [if_pos hpower] at hlow
      rw [hvalue, hpower.1] at he
      push_cast at he
      refine .of_lt ?_ ?_
      · rw [hlow]
        linarith
      · rw [hhigh]
        linarith
    · rw [if_neg hpower] at hlow
      by_cases hnear : x.magnitude - below * 10 ^ e < 1 / 2 * 2 ^ x.exponent
      · left
        refine .of_lt ?_ ?_
        · rw [hlow]
          linarith
        · rw [hhigh]
          linarith
      · right
        refine .of_lt ?_ ?_
        · rw [hlow]
          linarith
        · rw [hhigh]
          linarith
  unfold onGrid?
  dsimp only
  split
  · rfl
  · rfl
  · rfl
  · rename_i hl hh
    rcases hhit with h | h
    · rw [hl] at h
      cases h
    · rw [hh] at h
      cases h

/-- **The shortest decimal of a number rounds to it.** -/
theorem rounds_shortest {x : Binary64} (hx : x.mantissa ≠ 0) : x.Rounds (shortest x).value := by
  have hlead :
      (10 : ℚ) ^ (leadExponent x - ((1 + 16 : Nat) : Int) + 1) * 10 ^ 16 ≤ x.magnitude := by
    rw [← zpow_natCast, ← zpow_add₀ (by norm_num)]
    convert pow_leadExponent_le hx using 2
    push_cast
    ring
  obtain ⟨d, hd⟩ := Option.isSome_iff_exists.mp
    (isSome_search (by decide : 16 < 17) (isSome_onGrid? hx hlead))
  have hzero : x.isZero = false := by
    rw [Binary64.isZero, decide_eq_false_iff_not]
    exact hx
  rw [shortest, hzero, hd]
  simp only [Bool.false_eq_true, if_false]
  rw [value_trim]
  exact rounds_of_search hd

end Decimal
end AnalysisRunner
