import Mathlib.Data.Set.Function
import Mathlib.Data.String.Basic
import AnalysisRunner.Proofs.Json.Reordered

/-!
# Fingerprints tell configurations apart

A configuration is fingerprinted through its canonical text.  Two things could go wrong with
that.  A changed configuration could keep its text, and old results would be served for it; that
it does not is `reordered_of_canonicalText_eq`.  And a configuration whose members were merely
written in another order could get another text, and all results would be lost.

That it does not rests on sorting.  Members with distinct keys that are sorted by key have only
one order (`sortMembers_eq_of_perm`), so reordering the members of one object leaves its
canonical form alone; and what is done inside a member is done to its canonical form in the place
where that stands (`Reordered.canonical_eq`).
-/

namespace AnalysisRunner
namespace Json

/-! ## 1. Sorting by key -/

section Sorting

variable {α : Type}

/-- Whether members stand in the order of their keys. -/
def IsSorted (members : List (String × α)) : Prop :=
  members.Pairwise fun a b => a.1 < b.1

/-- Inserting brings no other key in. -/
theorem mem_insertMember {key : String} {value : α} {members : List (String × α)} {m : String × α}
    (h : m ∈ insertMember key value members) : m = (key, value) ∨ m ∈ members := by
  induction members with
  | nil => exact .inl (List.mem_singleton.mp h)
  | cons first rest ih =>
    obtain ⟨k, v⟩ := first
    rw [insertMember] at h
    split at h
    · exact List.mem_cons.mp h
    · split at h
      · exact (List.mem_cons.mp h).imp_right (List.mem_cons_of_mem _)
      · rcases List.mem_cons.mp h with rfl | h
        · exact .inr (List.mem_cons_self ..)
        · exact (ih h).imp_right (List.mem_cons_of_mem _)

theorem IsSorted.insertMember {members : List (String × α)} (h : IsSorted members) (key : String)
    (value : α) : IsSorted (insertMember key value members) := by
  induction members with
  | nil => exact List.pairwise_singleton _ _
  | cons first rest ih =>
    obtain ⟨k, v⟩ := first
    obtain ⟨hfirst, hrest⟩ := List.pairwise_cons.mp h
    rw [Json.insertMember]
    split
    · rename_i hlt
      refine List.pairwise_cons.mpr ⟨fun m hm => ?_, h⟩
      rcases List.mem_cons.mp hm with rfl | hm
      · exact hlt
      · exact lt_trans hlt (hfirst m hm)
    · rename_i hnot
      split
      · rename_i hsame
        exact List.pairwise_cons.mpr ⟨fun m hm => hsame ▸ hfirst m hm, hrest⟩
      · rename_i hne
        refine List.pairwise_cons.mpr ⟨fun m hm => ?_, ih hrest⟩
        rcases mem_insertMember hm with rfl | hm
        · exact lt_of_le_of_ne (not_lt.mp hnot) (Ne.symm hne)
        · exact hfirst m hm

theorem isSorted_sortMembers (members : List (String × α)) : IsSorted (sortMembers members) := by
  have hfold : ∀ (ms sorted : List (String × α)), IsSorted sorted →
      IsSorted (ms.foldl (fun sorted m => insertMember m.1 m.2 sorted) sorted) := by
    intro ms
    induction ms with
    | nil => exact fun _ h => h
    | cons m rest ih => exact fun _ h => ih _ (h.insertMember m.1 m.2)
  exact hfold members [] List.Pairwise.nil

/-- **Members with distinct keys have one sorted order.** -/
theorem sortMembers_eq_of_perm {ms ns : List (String × α)} (h : ms.Perm ns)
    (hdistinct : (ms.map Prod.fst).Nodup) : sortMembers ms = sortMembers ns := by
  have hdistinct' : (ns.map Prod.fst).Nodup := (h.map Prod.fst).nodup_iff.mp hdistinct
  have hperm : (sortMembers ms).Perm (sortMembers ns) :=
    (perm_sortMembers hdistinct).trans (h.trans (perm_sortMembers hdistinct').symm)
  refine hperm.eq_of_pairwise ?_ (isSorted_sortMembers ms) (isSorted_sortMembers ns)
  exact fun a b _ _ hab hba => absurd hba (lt_asymm hab)

end Sorting

/-! ## 2. Parts of values -/

theorem canonicalItems_eq (vs : List Json) : canonicalItems vs = vs.map canonical := by
  induction vs with
  | nil => rfl
  | cons v rest ih => rw [canonicalItems, ih, List.map_cons]

theorem canonicalMembers_eq (ms : List (String × Json)) :
    canonicalMembers ms = ms.map fun m => (m.1, m.2.canonical) := by
  induction ms with
  | nil => rfl
  | cons m rest ih => rw [canonicalMembers, ih, List.map_cons]

theorem itemsKeysDistinct_iff {vs : List Json} :
    ItemsKeysDistinct vs ↔ ∀ v ∈ vs, v.KeysDistinct := by
  induction vs with
  | nil => simp [ItemsKeysDistinct]
  | cons v rest ih => rw [ItemsKeysDistinct, ih, List.forall_mem_cons]

theorem membersKeysDistinct_iff {ms : List (String × Json)} :
    MembersKeysDistinct ms ↔ ∀ m ∈ ms, m.2.KeysDistinct := by
  induction ms with
  | nil => simp [MembersKeysDistinct]
  | cons m rest ih => rw [MembersKeysDistinct, ih, List.forall_mem_cons]

theorem keysDistinct_array_iff {vs : List Json} :
    (array vs).KeysDistinct ↔ ∀ v ∈ vs, v.KeysDistinct := by
  rw [KeysDistinct, itemsKeysDistinct_iff]

theorem keysDistinct_object_iff {ms : List (String × Json)} :
    (object ms).KeysDistinct ↔ (ms.map Prod.fst).Nodup ∧ ∀ m ∈ ms, m.2.KeysDistinct := by
  rw [KeysDistinct, membersKeysDistinct_iff]

/-! ## 3. Reordering and the canonical form -/

/-- **A reordering has the same canonical form**, and distinct keys as well. -/
theorem Reordered.canonical_eq {v w : Json} (h : Reordered v w) (hv : v.KeysDistinct) :
    w.KeysDistinct ∧ v.canonical = w.canonical := by
  induction h with
  | refl v => exact ⟨hv, rfl⟩
  | trans _ _ ih ih' =>
    obtain ⟨hmid, hfirst⟩ := ih hv
    obtain ⟨hw, hsecond⟩ := ih' hmid
    exact ⟨hw, hfirst.trans hsecond⟩
  | @members ms ns h =>
    obtain ⟨hdistinct, hparts⟩ := keysDistinct_object_iff.mp hv
    refine ⟨keysDistinct_object_iff.mpr ⟨(h.map Prod.fst).nodup_iff.mp hdistinct, ?_⟩, ?_⟩
    · exact fun m hm => hparts m (h.mem_iff.mpr hm)
    · rw [canonical, canonical, canonicalMembers_eq, canonicalMembers_eq]
      refine congrArg object (sortMembers_eq_of_perm (h.map _) ?_)
      rwa [← canonicalMembers_eq, keys_canonicalMembers]
  | @item v w _ before after ih =>
    rw [keysDistinct_array_iff, List.forall_mem_append, List.forall_mem_cons] at hv
    obtain ⟨hw, hsame⟩ := ih hv.2.1
    refine ⟨?_, ?_⟩
    · rw [keysDistinct_array_iff, List.forall_mem_append, List.forall_mem_cons]
      exact ⟨hv.1, hw, hv.2.2⟩
    · simp only [canonical, canonicalItems_eq, List.map_append, List.map_cons, hsame]
  | @member v w _ k before after ih =>
    rw [keysDistinct_object_iff, List.forall_mem_append, List.forall_mem_cons] at hv
    obtain ⟨hw, hsame⟩ := ih hv.2.2.1
    refine ⟨?_, ?_⟩
    · rw [keysDistinct_object_iff, List.forall_mem_append, List.forall_mem_cons]
      refine ⟨?_, hv.2.1, hw, hv.2.2.2⟩
      simpa only [List.map_append, List.map_cons] using hv.1
    · simp only [canonical, canonicalMembers_eq, List.map_append, List.map_cons, hsame]

/-- **Fingerprints tell exactly the different configurations apart.**  Two values, in which no
object has two members of one key, have one canonical text exactly if they differ in the order of
members only, at any level.  So if the fingerprints of some texts tell these texts apart, and the
canonical texts are among them, then the two values have one fingerprint exactly in that case. -/
theorem fingerprint_tells_apart {v w : Json} (hv : v.KeysDistinct) (hw : w.KeysDistinct) :
    (Fingerprint.canonicalText v = Fingerprint.canonicalText w ↔ Reordered v w) ∧
    ∀ texts : Set String, Set.InjOn Fingerprint.ofText texts →
      Fingerprint.canonicalText v ∈ texts → Fingerprint.canonicalText w ∈ texts →
        (Fingerprint.ofConfig v = Fingerprint.ofConfig w ↔ Reordered v w) := by
  have htext : Fingerprint.canonicalText v = Fingerprint.canonicalText w ↔ Reordered v w := by
    constructor
    · exact reordered_of_canonicalText_eq hv hw
    · intro h
      rw [Fingerprint.canonicalText, Fingerprint.canonicalText, (h.canonical_eq hv).2]
  refine ⟨htext, fun texts hinj hvt hwt => ?_⟩
  rw [← htext]
  exact ⟨fun hhash => hinj hvt hwt hhash, fun hsame => congrArg Fingerprint.ofText hsame⟩

/-! ## 4. A configuration that is written in two ways -/

/-- Rules with settings of their own. -/
def sampleRules : Json :=
  .object [("max\n", .array [.number (.nat 1), .object [("b", .null), ("a", .bool true)]]),
    ("deny", .string "x")]

/-- The same rules with the members of both objects in another order. -/
def sampleRules' : Json :=
  .object [("deny", .string "x"),
    ("max\n", .array [.number (.nat 1), .object [("a", .bool true), ("b", .null)]])]

/-- The rules with the array in another order. -/
def otherRules : Json :=
  .object [("max\n", .array [.object [("b", .null), ("a", .bool true)], .number (.nat 1)]),
    ("deny", .string "x")]

theorem fingerprint_tells_apart_rules :
    Fingerprint.ofConfig sampleRules = Fingerprint.ofConfig sampleRules' ∧
      ¬ Reordered sampleRules otherRules := by
  have hdistinct : sampleRules.KeysDistinct ∧ sampleRules'.KeysDistinct ∧
      otherRules.KeysDistinct := by
    simp [sampleRules, sampleRules', otherRules, KeysDistinct, MembersKeysDistinct,
      ItemsKeysDistinct]
  obtain ⟨hrules, hrules', hother⟩ := hdistinct
  have hinner : Reordered (.array [.number (.nat 1), .object [("b", .null), ("a", .bool true)]])
      (.array [.number (.nat 1), .object [("a", .bool true), ("b", .null)]]) :=
    .item (.members (List.Perm.swap _ _ _)) [.number (.nat 1)] []
  have hreordered : Reordered sampleRules sampleRules' :=
    (Reordered.member hinner "max\n" [] [("deny", .string "x")]).trans
      (.members (List.Perm.swap _ _ _))
  have hsame := (fingerprint_tells_apart hrules hrules').1.mpr hreordered
  refine ⟨?_, fun h => ?_⟩
  · exact ((fingerprint_tells_apart hrules hrules').2 {Fingerprint.canonicalText sampleRules}
      (Set.injOn_singleton _ _) rfl hsame.symm).mpr hreordered
  · have htext := (fingerprint_tells_apart hrules hother).1.mpr h
    exact absurd htext (by decide)

end Json
end AnalysisRunner
