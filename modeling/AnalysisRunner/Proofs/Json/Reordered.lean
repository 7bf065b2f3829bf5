import AnalysisRunner.Cache.Fingerprint
import AnalysisRunner.Proofs.Json.Distinct

/-!
# Values up to the order of members

Two values are the same up to the order of members if one can be turned into the other by
reordering the members of objects, at any level (`Json.Reordered`).  If no object has two
members of one key (`Json.KeysDistinct`), the canonical form is such a reordering
(`reordered_canonical`), so values with one canonical text are reorderings of each other
(`reordered_of_canonicalText_eq`).
-/

namespace AnalysisRunner
namespace Json

/-- Whether two values differ in the order of members only. -/
inductive Reordered : Json → Json → Prop
  | refl (v : Json) : Reordered v v
  | trans {u v w : Json} (h : Reordered u v) (h' : Reordered v w) : Reordered u w
  /-- The members of an object in another order. -/
  | members {ms ns : List (String × Json)} (h : ms.Perm ns) : Reordered (.object ms) (.object ns)
  /-- A change inside an item of an array. -/
  | item {v w : Json} (h : Reordered v w) (before after : List Json) :
      Reordered (.array (before ++ v :: after)) (.array (before ++ w :: after))
  /-- A change inside a member of an object. -/
  | member {v w : Json} (h : Reordered v w) (k : String) (before after : List (String × Json)) :
      Reordered (.object (before ++ (k, v) :: after)) (.object (before ++ (k, w) :: after))

theorem Reordered.symm {v w : Json} (h : Reordered v w) : Reordered w v := by
  induction h with
  | refl v => exact .refl v
  | trans _ _ ih ih' => exact .trans ih' ih
  | members h => exact .members h.symm
  | item _ before after ih => exact .item ih before after
  | member _ k before after ih => exact .member ih k before after

mutual

/-- Whether no object in a value has two members of one key. -/
def KeysDistinct : Json → Prop
  | .array items => ItemsKeysDistinct items
  | .object members => (members.map Prod.fst).Nodup ∧ MembersKeysDistinct members
  | _ => True

/-- Whether this is so in all items of an array. -/
def ItemsKeysDistinct : List Json → Prop
  | [] => True
  | v :: rest => v.KeysDistinct ∧ ItemsKeysDistinct rest

/-- Whether this is so in all members of an object. -/
def MembersKeysDistinct : List (String × Json) → Prop
  | [] => True
  | (_, v) :: rest => v.KeysDistinct ∧ MembersKeysDistinct rest

end

/-! ## 1. Sorted members -/

/-- A member with a new key is one more member. -/
theorem perm_insertMember {α : Type} {key : String} {sorted : List (String × α)}
    (h : key ∉ sorted.map Prod.fst) (value : α) :
    (insertMember key value sorted).Perm ((key, value) :: sorted) := by
  induction sorted with
  | nil => exact List.Perm.refl _
  | cons m rest ih =>
    obtain ⟨k, v⟩ := m
    rw [List.map_cons, List.mem_cons, not_or] at h
    rw [insertMember]
    split
    · exact List.Perm.refl _
    · rw [if_neg h.1]
      exact ((ih h.2).cons _).trans (List.Perm.swap _ _ _)

theorem perm_foldl_insertMember {α : Type} (members sorted : List (String × α))
    (h : ((members ++ sorted).map Prod.fst).Nodup) :
    (members.foldl (fun sorted m => insertMember m.1 m.2 sorted) sorted).Perm
      (members ++ sorted) := by
  induction members generalizing sorted with
  | nil => exact List.Perm.refl _
  | cons m rest ih =>
    have hnew : m.1 ∉ sorted.map Prod.fst := by
      rw [List.cons_append, List.map_cons, List.nodup_cons, List.map_append] at h
      exact fun hm => h.1 (List.mem_append_right _ hm)
    have hinsert := perm_insertMember hnew m.2
    have hmiddle : (rest ++ insertMember m.1 m.2 sorted).Perm (m :: (rest ++ sorted)) :=
      (hinsert.append_left rest).trans List.perm_middle
    rw [List.foldl_cons]
    refine (ih _ ?_).trans hmiddle
    exact ((hmiddle.map Prod.fst).nodup_iff).mpr h

/-- Members with different keys are sorted and nothing else. -/
theorem perm_sortMembers {α : Type} {members : List (String × α)}
    (h : (members.map Prod.fst).Nodup) : (sortMembers members).Perm members := by
  have hperm := perm_foldl_insertMember members [] (by rwa [List.append_nil])
  rwa [List.append_nil] at hperm

theorem keys_canonicalMembers : ∀ members : List (String × Json),
    (canonicalMembers members).map Prod.fst = members.map Prod.fst
  | [] => rfl
  | (k, v) :: rest => by
    rw [canonicalMembers, List.map_cons, List.map_cons, keys_canonicalMembers rest]

/-! ## 2. The canonical form -/

-- The part of the array or object that is done already stands in front.
mutual

/-- **The canonical form is a reordering.** -/
theorem reordered_canonical : ∀ {v : Json}, v.KeysDistinct → Reordered v v.canonical
  | .null, _ => .refl _
  | .bool _, _ => .refl _
  | .number _, _ => .refl _
  | .string _, _ => .refl _
  | .array items, h => by
    rw [KeysDistinct] at h
    rw [canonical]
    exact reordered_canonicalItems [] h
  | .object members, h => by
    rw [KeysDistinct] at h
    rw [canonical]
    refine (reordered_canonicalMembers [] h.2).trans (.members ?_)
    refine (perm_sortMembers ?_).symm
    rw [List.nil_append, keys_canonicalMembers]
    exact h.1

theorem reordered_canonicalItems (before : List Json) : ∀ {items : List Json},
    ItemsKeysDistinct items →
      Reordered (.array (before ++ items)) (.array (before ++ canonicalItems items))
  | [], _ => .refl _
  | v :: rest, h => by
    rw [ItemsKeysDistinct] at h
    have hrest := reordered_canonicalItems (before ++ [canonical v]) h.2
    rw [List.append_assoc, List.append_assoc, List.singleton_append, List.singleton_append] at hrest
    rw [canonicalItems]
    exact (Reordered.item (reordered_canonical h.1) before rest).trans hrest

theorem reordered_canonicalMembers (before : List (String × Json)) :
    ∀ {members : List (String × Json)}, MembersKeysDistinct members →
      Reordered (.object (before ++ members)) (.object (before ++ canonicalMembers members))
  | [], _ => .refl _
  | (k, v) :: rest, h => by
    rw [MembersKeysDistinct] at h
    have hrest := reordered_canonicalMembers (before ++ [(k, canonical v)]) h.2
    rw [List.append_assoc, List.append_assoc, List.singleton_append, List.singleton_append] at hrest
    rw [canonicalMembers]
    exact (Reordered.member (reordered_canonical h.1) k before rest).trans hrest

end

/-- **Values with one canonical text are reorderings of each other.** -/
theorem reordered_of_canonicalText_eq {v w : Json} (hv : v.KeysDistinct) (hw : w.KeysDistinct)
    (h : Fingerprint.canonicalText v = Fingerprint.canonicalText w) : Reordered v w := by
  have hsame : v.canonical = w.canonical := compact_injective h
  refine (reordered_canonical hv).trans ?_
  rw [hsame]
  exact (reordered_canonical hw).symm

end Json
end AnalysisRunner
