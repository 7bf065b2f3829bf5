import Mathlib.Algebra.Group.Nat.Defs
import AnalysisRunner.Proofs.Cache.History
import AnalysisRunner.Settings.Derived
import AnalysisRunner.Settings.Load

/-!
# The lifetime in force

Settings give the lifetime of a result in seconds; a cache measures the age of a result
in milliseconds of a clock.  Between the two stand a product that may be larger than any
clock reading, and the cut of that product to sixty-four bits.

`CacheOptions.KeepsFor` says for how long a result is served, and it says it as a user
sees it: whatever was done to the cache before, one and the same question, asked again and
again after the result was put in, is answered by it up to a limit and by nothing from the
limit on.  Answers are `answers_of_filed`: as long as the result is young a question leaves
it where it is, and the first question that finds it too old takes it out for good.

The limit is the lifetime modulo `2 ^ 64` milliseconds.  Settings are accepted with any
lifetime above zero, so they can ask for more than that, and then they get less: two to
the sixty-one seconds are a multiple of `2 ^ 64` milliseconds, and a cache with that
lifetime never serves anything.
-/

namespace AnalysisRunner

/-! ## 1. One question, again and again -/

namespace Cache

/-- The answers to one question that is asked at one time after the other. -/
def answers (c : Cache) (file : Path) (content configHash : String) :
    List UInt64 → List (Option Json)
  | [] => []
  | now :: later =>
    (c.get now file content configHash).1 ::
      (c.get now file content configHash).2.answers file content configHash later

variable {c : Cache} {file : Path} {content configHash : String} {result : Json} {made : UInt64}

/-- What is not there is not found later. -/
theorem answers_of_absent (h : c.entries.get? file.normal = none) (times : List UInt64) :
    c.answers file content configHash times = times.map fun _ => none := by
  induction times generalizing c with
  | nil => rfl
  | cons now later ih =>
    have hmiss : (c.get now file content configHash).1 = none := by
      rw [Option.eq_none_iff_forall_ne_some]
      intro answer hanswer
      obtain ⟨e, he, -⟩ := get_eq_some_iff.mp hanswer
      rw [h] at he
      cases he
    rw [answers, hmiss, ih (by rw [get?_get, h]; rfl), List.map_cons]

/-- A question about a result that was put in is answered by it, unless it is too old. -/
theorem get_of_filed
    (h : c.entries.get? file.normal = some (entryOf made file content configHash result))
    (now : UInt64) :
    (c.get now file content configHash).1 =
      if now.toNat - made.toNat < c.options.lifetime.ticks then some result else none := by
  split
  · rename_i hyoung
    exact get_eq_some_iff.mpr ⟨_, h, rfl, rfl, rfl, hyoung⟩
  · rename_i hold
    rw [Option.eq_none_iff_forall_ne_some]
    intro answer hanswer
    obtain ⟨e, he, -, -, -, hyoung⟩ := get_eq_some_iff.mp hanswer
    rw [h] at he
    rw [← Option.some.inj he] at hyoung
    exact hold hyoung

/-- The question leaves the result where it is, unless it is too old. -/
theorem get?_get_of_filed
    (h : c.entries.get? file.normal = some (entryOf made file content configHash result))
    (now : UInt64) :
    (c.get now file content configHash).2.entries.get? file.normal =
      if now.toNat - made.toNat < c.options.lifetime.ticks then
        some (entryOf made file content configHash result) else none := by
  have hexpired : (entryOf made file content configHash result).isExpired now c.options.lifetime =
      !decide (now.toNat - made.toNat < c.options.lifetime.ticks) := by
    show decide (c.options.lifetime.ticks ≤ now.toNat - made.toNat) = _
    rw [← decide_not, decide_eq_decide, Nat.not_lt]
  rw [get?_get, h, Option.filter_some, hexpired]
  simp

/-- **A result is served until it is too old, and never after that**, as long as the clock
does not go back. -/
theorem answers_of_filed
    (h : c.entries.get? file.normal = some (entryOf made file content configHash result))
    {times : List UInt64} (htimes : times.Pairwise (· ≤ ·)) :
    c.answers file content configHash times = times.map fun now =>
      if now.toNat - made.toNat < c.options.lifetime.ticks then some result else none := by
  induction times generalizing c with
  | nil => rfl
  | cons now later ih =>
    obtain ⟨hlater, hrest⟩ := List.pairwise_cons.mp htimes
    have hleft := get?_get_of_filed h now
    rw [answers, List.map_cons, get_of_filed h]
    congr 1
    by_cases hyoung : now.toNat - made.toNat < c.options.lifetime.ticks
    · rw [if_pos hyoung] at hleft
      rw [ih hleft hrest, options_get]
    · rw [if_neg hyoung] at hleft
      rw [answers_of_absent hleft]
      refine List.map_congr_left fun t ht => ?_
      have hle : now.toNat ≤ t.toNat := hlater t ht
      rw [if_neg (by omega)]

end Cache

/-! ## 2. For how long a result is served -/

/-- Whether a cache with these options serves a result for exactly so many milliseconds.
After any history of the cache the result is put in, at any time, and from then on nothing
but the question for it touches the cache. -/
def CacheOptions.KeepsFor (options : CacheOptions) (limit : Nat) : Prop :=
  ∀ (start : UInt64) (steps : List CacheStep) (made : UInt64) (file : Path)
    (content configHash : String) (result : Json) (times : List UInt64),
    (made :: times).Pairwise (· ≤ ·) →
    (((CacheState.fresh options start).run steps).cache.set made file content configHash
        result).answers file content configHash times =
      times.map fun now => if now.toNat - made.toNat < limit then some result else none

namespace CacheOptions

/-- A result is served for as long as a clock can tell of its lifetime. -/
theorem keepsFor_ticks (options : CacheOptions) : options.KeepsFor options.lifetime.ticks := by
  intro start steps made file content configHash result times htimes
  have hlifetime : (((CacheState.fresh options start).run steps).cache.set made file content
      configHash result).options.lifetime = options.lifetime := by
    rw [Cache.options_set, CacheState.options_run]
    rfl
  rw [Cache.answers_of_filed (by rw [Cache.get?_set, if_pos rfl]) (List.pairwise_cons.mp htimes).2,
    hlifetime]

/-- No other limit is kept: at the smaller one of two limits, the answer tells them apart. -/
theorem keepsFor_iff {options : CacheOptions} {limit : Nat} :
    options.KeepsFor limit ↔ limit = options.lifetime.ticks := by
  constructor
  · intro h
    have hticks := options.lifetime.ticks_lt
    generalize hnow : min limit options.lifetime.ticks = now
    have htoNat : (UInt64.ofNat now).toNat - (0 : UInt64).toNat = now :=
      Nat.mod_eq_of_lt (by omega)
    have htimes : [0, UInt64.ofNat now].Pairwise (· ≤ ·) := by simp
    have hanswers := h 0 [] 0 ⟨[]⟩ "" "" .null _ htimes
    rw [options.keepsFor_ticks 0 [] 0 ⟨[]⟩ "" "" .null _ htimes, List.map_singleton,
      List.map_singleton, htoNat] at hanswers
    rcases Nat.lt_trichotomy limit options.lifetime.ticks with hlt | heq | hgt
    · rw [if_pos (by omega), if_neg (by omega)] at hanswers
      cases hanswers
    · exact heq
    · rw [if_neg (by omega), if_pos (by omega)] at hanswers
      cases hanswers
  · rintro rfl
    exact options.keepsFor_ticks

end CacheOptions

/-! ## 3. Settings -/

namespace Settings

/-- **The lifetime in force is the lifetime asked for, modulo `2 ^ 64` milliseconds.**  With
any settings, accepted or not, and after any history of the cache that is set up by them:

* a result is served for the seconds asked for in milliseconds, modulo `2 ^ 64`, and for no
  other time;
* so the lifetime asked for is the lifetime in force exactly if it is below `2 ^ 64`
  milliseconds;
* and nothing is ever served exactly if the seconds are a multiple of `2 ^ 61`. -/
theorem lifetime_in_force (s : Settings) :
    (∀ limit, s.cacheOptions.KeepsFor limit ↔
      limit = s.cache.lifetimeSeconds.toNat * 1000 % 2 ^ 64) ∧
    (s.cacheOptions.KeepsFor (s.cache.lifetimeSeconds.toNat * 1000) ↔
      s.cache.lifetimeSeconds.toNat * 1000 < 2 ^ 64) ∧
    (s.cacheOptions.KeepsFor 0 ↔ 2 ^ 61 ∣ s.cache.lifetimeSeconds.toNat) := by
  have hticks : s.cacheOptions.lifetime.ticks = s.cache.lifetimeSeconds.toNat * 1000 % 2 ^ 64 := rfl
  refine ⟨fun limit => ?_, ?_, ?_⟩
  · rw [CacheOptions.keepsFor_iff, hticks]
  · rw [CacheOptions.keepsFor_iff, hticks]
    omega
  · -- a thousand is eight times an odd number
    have hfactors : s.cache.lifetimeSeconds.toNat * 1000 =
        s.cache.lifetimeSeconds.toNat * 125 * 8 := by
      omega
    have hcoprime : Nat.Coprime (2 ^ 61) 125 := by decide
    rw [CacheOptions.keepsFor_iff, hticks, eq_comm, ← Nat.dvd_iff_mod_eq_zero, hfactors,
      show 2 ^ 64 = 2 ^ 61 * 8 from rfl, Nat.mul_dvd_mul_iff_right (by decide)]
    exact ⟨hcoprime.dvd_of_dvd_mul_right, fun h => Nat.dvd_mul_right_of_dvd h _⟩

/-- Settings that are accepted, with a lifetime of `2 ^ 61` seconds: a result is not served
at the very time at which it is put in. -/
theorem lifetime_in_force_cut :
    let standard := Settings.standard 1
    let s : Settings := { standard with
      cache := { standard.cache with lifetimeSeconds := 2305843009213693952 } }
    s.checked = .ok s ∧ ¬ s.cacheOptions.KeepsFor (s.cache.lifetimeSeconds.toNat * 1000) ∧
      ∀ (now : UInt64) (file : Path) (content configHash : String) (result : Json),
        ((Cache.new s.cacheOptions).set now file content configHash result).answers file content
          configHash [now] = [none] := by
  intro standard s
  have hseconds : s.cache.lifetimeSeconds.toNat = 2 ^ 61 := by decide
  have hfault : s.fault? = none := by decide
  obtain ⟨-, hcut, hnever⟩ := lifetime_in_force s
  refine ⟨by rw [checked, hfault], fun hkeeps => ?_, fun now file content configHash result => ?_⟩
  · have hlt := hcut.mp hkeeps
    rw [hseconds] at hlt
    exact absurd hlt (by decide)
  · have hzero := hnever.mpr ⟨1, by rw [hseconds, Nat.mul_one]⟩
    exact hzero now [] now file content configHash result [now] (by simp)

end Settings
end AnalysisRunner
