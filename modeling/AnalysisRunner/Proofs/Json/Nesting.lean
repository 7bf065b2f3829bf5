import AnalysisRunner.Proofs.Cache.Archived

/-!
# Values that read back where they stand

A value that stands inside a document has fewer levels left than one that is a document
itself.  How many it needs is its `depth`: a value that reads back does so wherever that many
levels are left (`ofWritten?_of_depth_le`), and nowhere else (`depth_le_of_ofWritten?`).

Of the ways in which a value may fail to read back, a value without fractions has only two
left: it may be nested too deep, and its members may be out of order.  It is read as its
canonical form (`ofWritten?_written`).
-/

namespace AnalysisRunner
namespace Json

/-! ## 1. Depth -/

mutual

/-- How many arrays and objects are nested in a value. -/
def depth : Json → Nat
  | .array items => itemsDepth items + 1
  | .object members => membersDepth members + 1
  | _ => 0

/-- The greatest depth of items. -/
def itemsDepth : List Json → Nat
  | [] => 0
  | v :: rest => max v.depth (itemsDepth rest)

/-- The greatest depth of the values of members. -/
def membersDepth : List (String × Json) → Nat
  | [] => 0
  | (_, v) :: rest => max v.depth (membersDepth rest)

end

mutual

/-- **A value needs as many levels as it is nested.** -/
theorem ofWritten?_of_depth_le {d d' : Nat} : ∀ {v u : Json}, v.depth ≤ d →
    ofWritten? d' v.written = some u → ofWritten? d v.written = some u
  | .null, _, _, hu => hu
  | .bool _, _, _, hu => hu
  | .number _, _, _, hu => hu
  | .string _, _, _, hu => hu
  | .array items, u, hd, hu => by
    rw [depth] at hd
    rw [written, ofWritten?] at hu ⊢
    split at hu
    · cases hu
    · obtain ⟨vs, hvs, rfl⟩ := Option.map_eq_some_iff.mp hu
      rw [if_neg (by omega), itemsOfWritten?_of_depth_le (by omega) hvs, Option.map_some]
  | .object members, u, hd, hu => by
    rw [depth] at hd
    rw [written, ofWritten?] at hu ⊢
    split at hu
    · cases hu
    · obtain ⟨ms, hms, rfl⟩ := Option.map_eq_some_iff.mp hu
      rw [if_neg (by omega), membersOfWritten?_of_depth_le (by omega) hms, Option.map_some]

theorem itemsOfWritten?_of_depth_le {d d' : Nat} : ∀ {vs us : List Json}, itemsDepth vs ≤ d →
    itemsOfWritten? d' (writtenItems vs) = some us → itemsOfWritten? d (writtenItems vs) = some us
  | [], _, _, hus => hus
  | v :: vs, us, hd, hus => by
    rw [itemsDepth] at hd
    rw [writtenItems, itemsOfWritten?] at hus ⊢
    split at hus
    · rename_i u rest hu hrest
      rw [ofWritten?_of_depth_le (by omega) hu, itemsOfWritten?_of_depth_le (by omega) hrest]
      exact hus
    · cases hus

theorem membersOfWritten?_of_depth_le {d d' : Nat} : ∀ {ms us : List (String × Json)},
    membersDepth ms ≤ d → membersOfWritten? d' (writtenMembers ms) = some us →
    membersOfWritten? d (writtenMembers ms) = some us
  | [], _, _, hus => hus
  | (k, v) :: ms, us, hd, hus => by
    rw [membersDepth] at hd
    rw [writtenMembers, membersOfWritten?] at hus ⊢
    split at hus
    · rename_i key u rest hkey hu hrest
      rw [hkey, ofWritten?_of_depth_le (by omega) hu,
        membersOfWritten?_of_depth_le (by omega) hrest]
      exact hus
    · cases hus

end

mutual

/-- **A value that is read is nested no deeper than there are levels.** -/
theorem depth_le_of_ofWritten? {d : Nat} : ∀ {v u : Json}, ofWritten? d v.written = some u →
    v.depth ≤ d
  | .null, _, _ => Nat.zero_le d
  | .bool _, _, _ => Nat.zero_le d
  | .number _, _, _ => Nat.zero_le d
  | .string _, _, _ => Nat.zero_le d
  | .array items, u, hu => by
    rw [written, ofWritten?] at hu
    split at hu
    · cases hu
    · obtain ⟨vs, hvs, -⟩ := Option.map_eq_some_iff.mp hu
      have hitems := itemsDepth_le_of_itemsOfWritten? hvs
      rw [depth]
      omega
  | .object members, u, hu => by
    rw [written, ofWritten?] at hu
    split at hu
    · cases hu
    · obtain ⟨ms, hms, -⟩ := Option.map_eq_some_iff.mp hu
      have hmembers := membersDepth_le_of_membersOfWritten? hms
      rw [depth]
      omega

theorem itemsDepth_le_of_itemsOfWritten? {d : Nat} : ∀ {vs us : List Json},
    itemsOfWritten? d (writtenItems vs) = some us → itemsDepth vs ≤ d
  | [], _, _ => Nat.zero_le d
  | v :: vs, us, hus => by
    rw [writtenItems, itemsOfWritten?] at hus
    split at hus
    · rename_i u rest hu hrest
      rw [itemsDepth]
      exact Nat.max_le.mpr ⟨depth_le_of_ofWritten? hu, itemsDepth_le_of_itemsOfWritten? hrest⟩
    · cases hus

theorem membersDepth_le_of_membersOfWritten? {d : Nat} : ∀ {ms us : List (String × Json)},
    membersOfWritten? d (writtenMembers ms) = some us → membersDepth ms ≤ d
  | [], _, _ => Nat.zero_le d
  | (k, v) :: ms, us, hus => by
    rw [writtenMembers, membersOfWritten?] at hus
    split at hus
    · rename_i key u rest hkey hu hrest
      rw [membersDepth]
      exact Nat.max_le.mpr ⟨depth_le_of_ofWritten? hu, membersDepth_le_of_membersOfWritten? hrest⟩
    · cases hus

end

/-! ## 2. Values without fractions -/

mutual

/-- Whether there is no fraction in a value. -/
def IsWhole : Json → Prop
  | .number (.real _) => False
  | .array items => ItemsWhole items
  | .object members => MembersWhole members
  | _ => True

/-- Whether there is no fraction in items. -/
def ItemsWhole : List Json → Prop
  | [] => True
  | v :: rest => v.IsWhole ∧ ItemsWhole rest

/-- Whether there is no fraction in the values of members. -/
def MembersWhole : List (String × Json) → Prop
  | [] => True
  | (_, v) :: rest => v.IsWhole ∧ MembersWhole rest

end

/-- A whole number reads back. -/
theorem number?_numeral {n : Number} (h : (Json.number n).IsWhole) :
    n.numeral.number? = some n := by
  cases n with
  | nat k =>
    have hnat := Numeral.nat?_numeral k
    unfold Numeral.nat? at hnat
    split at hnat
    · rename_i found hfound
      rw [hfound, Option.some.inj hnat]
    · cases hnat
  | negSucc k =>
    have hvalue : Numeral.digitsValue (natChars (k.val + 1)) = k.val + 1 :=
      Numeral.digitsValue_natChars _
    have hrange : k.val + 1 - 1 < Nat.pow 2 63 := k.isLt
    unfold Numeral.number? Number.numeral
    simp only [hvalue, List.isEmpty_nil, Option.isNone_none, and_self, if_true, hrange, dif_pos,
      Nat.succ_ne_zero, if_false]
    rfl
  | real x =>
    rw [IsWhole] at h
    exact h.elim

mutual

/-- **A value without fractions is read as its canonical form**, if there are levels enough. -/
theorem ofWritten?_written {d : Nat} : ∀ {v : Json}, v.IsWhole → v.depth ≤ d →
    ofWritten? d v.written = some v.canonical
  | .null, _, _ => rfl
  | .bool _, _, _ => rfl
  | .number n, hwhole, _ => by
    rw [written, ofWritten?, number?_numeral hwhole]
    rfl
  | .string s, _, _ => by
    rw [written, ofWritten?, Written.glyphText?_map_char]
    rfl
  | .array items, hwhole, hd => by
    rw [IsWhole] at hwhole
    rw [depth] at hd
    rw [written, ofWritten?, if_neg (by omega), itemsOfWritten?_writtenItems hwhole (by omega),
      Option.map_some, canonical]
  | .object members, hwhole, hd => by
    rw [IsWhole] at hwhole
    rw [depth] at hd
    rw [written, ofWritten?, if_neg (by omega), membersOfWritten?_writtenMembers hwhole (by omega),
      Option.map_some, canonical]

theorem itemsOfWritten?_writtenItems {d : Nat} : ∀ {vs : List Json}, ItemsWhole vs →
    itemsDepth vs ≤ d → itemsOfWritten? d (writtenItems vs) = some (canonicalItems vs)
  | [], _, _ => rfl
  | v :: vs, hwhole, hd => by
    rw [ItemsWhole] at hwhole
    rw [itemsDepth] at hd
    rw [writtenItems, itemsOfWritten?, ofWritten?_written hwhole.1 (by omega),
      itemsOfWritten?_writtenItems hwhole.2 (by omega), canonicalItems]

theorem membersOfWritten?_writtenMembers {d : Nat} : ∀ {ms : List (String × Json)},
    MembersWhole ms → membersDepth ms ≤ d →
    membersOfWritten? d (writtenMembers ms) = some (canonicalMembers ms)
  | [], _, _ => rfl
  | (k, v) :: ms, hwhole, hd => by
    rw [MembersWhole] at hwhole
    rw [membersDepth] at hd
    rw [writtenMembers, membersOfWritten?, Written.glyphText?_map_char,
      ofWritten?_written hwhole.1 (by omega), membersOfWritten?_writtenMembers hwhole.2 (by omega),
      canonicalMembers]

end

/-- **A value without fractions reads back** if it is canonical and not nested too deep. -/
theorem readsBack_of_isWhole {v : Json} (hwhole : v.IsWhole) (hcanonical : v.canonical = v)
    (hdepth : v.depth ≤ maxDepth) : v.ReadsBack := by
  rw [readsBack_iff, ofWritten?_written hwhole hdepth, hcanonical]

end Json
end AnalysisRunner
