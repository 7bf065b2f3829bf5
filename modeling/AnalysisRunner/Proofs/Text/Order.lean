import AnalysisRunner.Text.Utf8

/-!
# The order of texts and of their bytes

Texts are ordered by their characters.  Written in bytes they are ordered the same way,
byte by byte: a smaller character is written so that the first byte in which it differs from a
greater one is smaller (`utf8EncodeChar_lt`).  Between characters of one length that is because
their bits are written from the top, and between characters of different lengths the first byte
tells.
-/

namespace AnalysisRunner
namespace Bytes

/-! ## 1. Characters -/

/-- Bytes are compared as the numbers they stand for. -/
theorem cons_ofNat_lt {m n : Nat} {as bs : Bytes} (hm : m < 256) (hn : n < 256)
    (h : m < n ∨ m = n ∧ as < bs) : UInt8.ofNat m :: as < UInt8.ofNat n :: bs := by
  rw [List.cons_lt_cons_iff, UInt8.lt_iff_toNat_lt, UInt8.toNat_ofNat', UInt8.toNat_ofNat',
    Nat.mod_eq_of_lt hm, Nat.mod_eq_of_lt hn]
  exact h.imp_right fun h => ⟨congrArg UInt8.ofNat h.1, h.2⟩

/-- The last byte decides if all before it are the same. -/
theorem last_lt {v w : Nat} (as bs : Bytes) (h : v % 64 < w % 64) :
    UInt8.ofNat (v % 64 + 128) :: as < UInt8.ofNat (w % 64 + 128) :: bs :=
  cons_ofNat_lt (by omega) (by omega) (.inl (by omega))

/-- The last two bytes. -/
theorem last_two_lt {v w : Nat} (as bs : Bytes) (h : v % 4096 < w % 4096) :
    UInt8.ofNat (v / 64 % 64 + 128) :: UInt8.ofNat (v % 64 + 128) :: as <
      UInt8.ofNat (w / 64 % 64 + 128) :: UInt8.ofNat (w % 64 + 128) :: bs := by
  refine cons_ofNat_lt (by omega) (by omega) ?_
  rcases Nat.lt_or_ge (v / 64 % 64) (w / 64 % 64) with hlt | hge
  · exact .inl (by omega)
  · exact .inr ⟨by omega, last_lt as bs (by omega)⟩

/-- The last three bytes. -/
theorem last_three_lt {v w : Nat} (as bs : Bytes) (h : v % 262144 < w % 262144) :
    UInt8.ofNat (v / 4096 % 64 + 128) :: UInt8.ofNat (v / 64 % 64 + 128) ::
        UInt8.ofNat (v % 64 + 128) :: as <
      UInt8.ofNat (w / 4096 % 64 + 128) :: UInt8.ofNat (w / 64 % 64 + 128) ::
        UInt8.ofNat (w % 64 + 128) :: bs := by
  refine cons_ofNat_lt (by omega) (by omega) ?_
  rcases Nat.lt_or_ge (v / 4096 % 64) (w / 4096 % 64) with hlt | hge
  · exact .inl (by omega)
  · exact .inr ⟨by omega, last_two_lt as bs (by omega)⟩

/-- **A smaller character is written in smaller bytes**, whatever follows. -/
theorem utf8EncodeChar_lt {a b : Char} (h : a < b) (as bs : Bytes) :
    String.utf8EncodeChar a ++ as < String.utf8EncodeChar b ++ bs := by
  have hlt : a.val.toNat < b.val.toNat := UInt32.lt_iff_toNat_lt.mp (Char.lt_def.mp h)
  have hvalid : b.val.toNat < 0xD800 ∨ 0xDFFF < b.val.toNat ∧ b.val.toNat < 0x110000 := b.valid
  unfold String.utf8EncodeChar
  generalize a.val.toNat = v at hlt
  generalize b.val.toNat = w at hlt hvalid
  dsimp only
  -- a longer character begins with a greater byte, so lengths that differ need no second look
  by_cases v1 : v ≤ 127
  · rw [if_pos v1]
    (repeat' split) <;> exact cons_ofNat_lt (by omega) (by omega) (.inl (by omega))
  · rw [if_neg v1, if_neg (show ¬ w ≤ 127 by omega)]
    by_cases v2 : v ≤ 2047
    · rw [if_pos v2]
      by_cases w2 : w ≤ 2047
      · rw [if_pos w2]
        refine cons_ofNat_lt (by omega) (by omega) ?_
        rcases Nat.lt_or_ge (v / 64) (w / 64) with hfirst | hfirst
        · exact .inl (by omega)
        · exact .inr ⟨by omega, last_lt as bs (by omega)⟩
      · rw [if_neg w2]
        split <;> exact cons_ofNat_lt (by omega) (by omega) (.inl (by omega))
    · rw [if_neg v2, if_neg (show ¬ w ≤ 2047 by omega)]
      by_cases v3 : v ≤ 65535
      · rw [if_pos v3]
        by_cases w3 : w ≤ 65535
        · rw [if_pos w3]
          refine cons_ofNat_lt (by omega) (by omega) ?_
          rcases Nat.lt_or_ge (v / 4096) (w / 4096) with hfirst | hfirst
          · exact .inl (by omega)
          · exact .inr ⟨by omega, last_two_lt as bs (by omega)⟩
        · rw [if_neg w3]
          exact cons_ofNat_lt (by omega) (by omega) (.inl (by omega))
      · rw [if_neg v3, if_neg (show ¬ w ≤ 65535 by omega)]
        refine cons_ofNat_lt (by omega) (by omega) ?_
        rcases Nat.lt_or_ge (v / 262144) (w / 262144) with hfirst | hfirst
        · exact .inl (by omega)
        · exact .inr ⟨by omega, last_three_lt as bs (by omega)⟩

/-! ## 2. Texts -/

theorem flatMap_utf8EncodeChar_lt {cs ds : List Char} (h : cs < ds) :
    cs.flatMap String.utf8EncodeChar < ds.flatMap String.utf8EncodeChar := by
  induction h with
  | nil =>
    rename_i d ds
    rw [List.flatMap_nil, List.flatMap_cons]
    obtain ⟨byte, rest, hbytes⟩ :=
      List.exists_cons_of_ne_nil (String.utf8EncodeChar_ne_nil (c := d))
    rw [hbytes, List.cons_append]
    exact List.nil_lt_cons _ _
  | rel hchar =>
    rw [List.flatMap_cons, List.flatMap_cons]
    exact utf8EncodeChar_lt hchar _ _
  | cons _ ih =>
    rw [List.flatMap_cons, List.flatMap_cons]
    exact List.append_left_lt ih

/-- **Texts are ordered as their bytes are.** -/
theorem ofText_lt_iff {s t : String} : ofText s < ofText t ↔ s < t := by
  have hmono : ∀ {s t : String}, s < t → ofText s < ofText t := fun h =>
    flatMap_utf8EncodeChar_lt (String.lt_iff.mp h)
  refine ⟨fun h => ?_, hmono⟩
  refine Decidable.byContradiction fun hnot => ?_
  by_cases heq : s = t
  · rw [heq] at h
    exact List.lt_irrefl _ h
  · have hle : t ≤ s := String.not_lt.mp hnot
    have hlt : t < s := Decidable.byContradiction fun hnot' =>
      heq (String.le_antisymm (String.not_lt.mp hnot') hle)
    exact List.lt_asymm h (hmono hlt)

end Bytes
end AnalysisRunner
