import AnalysisRunner.Text.Utf8

/-!
# Text in bytes and back

What a text is written as reads back as that text: the machine that cuts bytes into
pieces goes through the bytes of a character and comes out with the character
(`piecesFrom_utf8EncodeChar`), so a whole text falls into its characters
(`pieces_ofText`), and strict reading accepts it (`text?_ofText`).

The bounds on the second byte are what keeps short characters from being written long.
They are stated once for all first bytes of one length, as a function of the byte.
-/

namespace AnalysisRunner
namespace OpenChar

/-! ## 1. First bytes -/

/-- A first byte of two. -/
theorem start_of_two {k : Nat} (hlow : 0xC2 ≤ k) (hhigh : k ≤ 0xDF) :
    start (UInt8.ofNat k) = .inr ⟨[UInt8.ofNat k], k - 0xC0, 1, 0x80, 0xBF⟩ := by
  obtain ⟨i, rfl⟩ := Nat.exists_eq_add_of_le hlow
  have h : ∀ i : Fin 30, start (UInt8.ofNat (0xC2 + i.val)) =
      .inr ⟨[UInt8.ofNat (0xC2 + i.val)], 0xC2 + i.val - 0xC0, 1, 0x80, 0xBF⟩ := by
    decide
  exact h ⟨i, by omega⟩

/-- A first byte of three; the second is bounded below after `E0`, where a shorter text
would do, and above after `ED`, where the surrogates begin. -/
theorem start_of_three {k : Nat} (hlow : 0xE0 ≤ k) (hhigh : k ≤ 0xEF) :
    start (UInt8.ofNat k) = .inr ⟨[UInt8.ofNat k], k - 0xE0, 2,
      if k = 0xE0 then 0xA0 else 0x80, if k = 0xED then 0x9F else 0xBF⟩ := by
  obtain ⟨i, rfl⟩ := Nat.exists_eq_add_of_le hlow
  have h : ∀ i : Fin 16, start (UInt8.ofNat (0xE0 + i.val)) =
      .inr ⟨[UInt8.ofNat (0xE0 + i.val)], 0xE0 + i.val - 0xE0, 2,
        if 0xE0 + i.val = 0xE0 then 0xA0 else 0x80,
        if 0xE0 + i.val = 0xED then 0x9F else 0xBF⟩ := by
    decide
  exact h ⟨i, by omega⟩

/-- A first byte of four; the second is bounded below after `F0`, where a shorter text
would do, and above after `F4`, where the characters end. -/
theorem start_of_four {k : Nat} (hlow : 0xF0 ≤ k) (hhigh : k ≤ 0xF4) :
    start (UInt8.ofNat k) = .inr ⟨[UInt8.ofNat k], k - 0xF0, 3,
      if k = 0xF0 then 0x90 else 0x80, if k = 0xF4 then 0x8F else 0xBF⟩ := by
  obtain ⟨i, rfl⟩ := Nat.exists_eq_add_of_le hlow
  have h : ∀ i : Fin 5, start (UInt8.ofNat (0xF0 + i.val)) =
      .inr ⟨[UInt8.ofNat (0xF0 + i.val)], 0xF0 + i.val - 0xF0, 3,
        if 0xF0 + i.val = 0xF0 then 0x90 else 0x80,
        if 0xF0 + i.val = 0xF4 then 0x8F else 0xBF⟩ := by
    decide
  exact h ⟨i, by omega⟩

/-! ## 2. Further bytes -/

theorem extend?_of_bounds {p : OpenChar} {n : Nat} (hn : n < 64) (hlow : p.low.toNat ≤ n + 128)
    (hhigh : n + 128 ≤ p.high.toNat) :
    p.extend? (UInt8.ofNat (n + 128)) =
      if p.owed ≤ 1 then some (.inl (.char (Char.ofNat (p.value * 64 + n))))
      else some (.inr ⟨p.seen ++ [UInt8.ofNat (n + 128)], p.value * 64 + n, p.owed - 1,
        0x80, 0xBF⟩) := by
  have hbyte : (UInt8.ofNat (n + 128)).toNat = n + 128 := by
    rw [UInt8.toNat_ofNat']
    omega
  have hbounds : p.low ≤ UInt8.ofNat (n + 128) ∧ UInt8.ofNat (n + 128) ≤ p.high := by
    rw [UInt8.le_iff_toNat_le, UInt8.le_iff_toNat_le, hbyte]
    exact ⟨hlow, hhigh⟩
  unfold extend?
  rw [if_pos hbounds, hbyte, Nat.add_sub_cancel]

end OpenChar

namespace Bytes

/-- The last byte of a character. -/
theorem piecesFrom_last {p : OpenChar} {n : Nat} (howed : p.owed = 1) (hn : n < 64)
    (hlow : p.low.toNat ≤ n + 128) (hhigh : n + 128 ≤ p.high.toNat) (rest : Bytes) :
    piecesFrom (some p) (UInt8.ofNat (n + 128) :: rest) =
      .char (Char.ofNat (p.value * 64 + n)) :: piecesFrom none rest := by
  rw [piecesFrom, OpenChar.extend?_of_bounds hn hlow hhigh, if_pos (by omega)]

/-- A byte in the middle of a character. -/
theorem piecesFrom_middle {p : OpenChar} {n : Nat} (howed : 1 < p.owed) (hn : n < 64)
    (hlow : p.low.toNat ≤ n + 128) (hhigh : n + 128 ≤ p.high.toNat) (rest : Bytes) :
    piecesFrom (some p) (UInt8.ofNat (n + 128) :: rest) =
      piecesFrom (some ⟨p.seen ++ [UInt8.ofNat (n + 128)], p.value * 64 + n, p.owed - 1,
        0x80, 0xBF⟩) rest := by
  rw [piecesFrom, OpenChar.extend?_of_bounds hn hlow hhigh, if_neg (by omega)]

/-! ## 3. Characters and texts -/

/-- **The bytes of a character read as that character.** -/
theorem piecesFrom_utf8EncodeChar (c : Char) (rest : Bytes) :
    piecesFrom none (String.utf8EncodeChar c ++ rest) = .char c :: piecesFrom none rest := by
  have hvalid : c.val.toNat < 0xD800 ∨ 0xDFFF < c.val.toNat ∧ c.val.toNat < 0x110000 := c.valid
  have hc : Char.ofNat c.val.toNat = c := Char.ofNat_toNat c
  unfold String.utf8EncodeChar
  generalize c.val.toNat = v at hvalid hc
  -- one to four bytes, by the size of the code point
  by_cases h1 : v ≤ 127
  · have hbyte : (UInt8.ofNat v).toNat = v := by
      rw [UInt8.toNat_ofNat']
      omega
    have hsmall : UInt8.ofNat v < 0x80 := by
      rw [UInt8.lt_iff_toNat_lt, hbyte]
      exact Nat.lt_succ_of_le h1
    rw [if_pos h1, List.singleton_append, piecesFrom, OpenChar.start, if_pos hsmall, hbyte, hc]
  · rw [if_neg h1]
    by_cases h2 : v ≤ 2047
    · rw [if_pos h2, List.cons_append, List.singleton_append, piecesFrom,
        OpenChar.start_of_two (by omega) (by omega)]
      dsimp only
      rw [piecesFrom_last rfl (by omega) (by simp) (by simp; omega)]
      dsimp only
      rw [show (v / 64 % 32 + 192 - 0xC0) * 64 + v % 64 = v by omega, hc]
    · rw [if_neg h2]
      by_cases h3 : v ≤ 65535
      · rw [if_pos h3, List.cons_append, List.cons_append, List.singleton_append, piecesFrom,
          OpenChar.start_of_three (by omega) (by omega)]
        dsimp only
        rw [piecesFrom_middle (by simp) (by omega) ?low ?high]
        case low =>
          dsimp only
          split <;> simp
          omega
        case high => dsimp only; split <;> simp <;> omega
        rw [piecesFrom_last rfl (by omega) (by simp) (by simp; omega)]
        dsimp only
        rw [show ((v / 4096 % 16 + 224 - 0xE0) * 64 + v / 64 % 64) * 64 + v % 64 = v by omega, hc]
      · rw [if_neg h3, List.cons_append, List.cons_append, List.cons_append,
          List.singleton_append, piecesFrom, OpenChar.start_of_four (by omega) (by omega)]
        dsimp only
        rw [piecesFrom_middle (by simp) (by omega) ?low ?high]
        case low =>
          dsimp only
          split <;> simp
          omega
        case high => dsimp only; split <;> simp <;> omega
        rw [piecesFrom_middle (by simp) (by omega) (by simp) (by simp; omega),
          piecesFrom_last rfl (by omega) (by simp) (by simp; omega)]
        dsimp only
        rw [show (((v / 262144 % 8 + 240 - 0xF0) * 64 + v / 4096 % 64) * 64 + v / 64 % 64) * 64 +
          v % 64 = v by omega, hc]

/-- A text falls into its characters. -/
theorem pieces_ofText (text : String) : (ofText text).pieces = text.toList.map .char := by
  unfold ofText pieces
  induction text.toList with
  | nil => rfl
  | cons c cs ih => rw [List.flatMap_cons, piecesFrom_utf8EncodeChar, ih, List.map_cons]

/-- **What a text is written as reads back as that text.** -/
theorem text?_ofText (text : String) : (ofText text).text? = some text := by
  have hchars : ∀ cs : List Char, (cs.map Piece.char).mapM Piece.char? = some cs := by
    intro cs
    induction cs with
    | nil => rfl
    | cons c cs ih => simp [ih, Piece.char?]
  rw [text?, pieces_ofText, hchars, Option.map_some, String.ofList_toList]

end Bytes
end AnalysisRunner
