import AnalysisRunner.Path.Table
import AnalysisRunner.Proofs.Lookup

/-!
# Tables of paths

Tables of paths are compared by what can be looked up in them, as all tables are.  What is
shown of a table, its paths in their order, depends on nothing else
(`PathTable.SamePaths.sortedPaths_eq`), because paths are ordered totally: two keys that
are both not after the other are equal.

The order of paths is lexicographic three times over, on components, on the kinds of
components, and on bytes; so that it is an order is a matter of instances.
-/

open Std

namespace AnalysisRunner

/-! ## 1. The order of paths -/

/-- Bytes are compared as lists are. -/
theorem bytesCompare_eq (a b : Bytes) : Bytes.compare a b = compare a b := by
  show _ = List.compareLex compare a b
  induction a generalizing b with
  | nil => cases b <;> rfl
  | cons x a ih =>
    cases b with
    | nil => rfl
    | cons y b =>
      have hbyte : compare x y = if x < y then .lt else if x = y then .eq else .gt := rfl
      rw [Bytes.compare, ih, List.compareLex, hbyte]
      by_cases hlt : x < y
      · rw [if_pos hlt, if_pos hlt]
      · by_cases heq : x = y
        · simp [heq]
        · have hgt : y < x := by
            grind
          simp [hlt, heq, hgt]

namespace Component

/-- The bytes of a name, none for any other component. -/
def named : Component → Bytes
  | .name bytes => bytes
  | _ => []

theorem compare_eq : Component.compare = compareLex (compareOn rank) (compareOn named) := by
  funext a b
  cases a <;> cases b <;> try rfl
  rw [Component.compare, bytesCompare_eq]
  rfl

instance : TransCmp Component.compare := by
  rw [compare_eq]
  infer_instance

instance : LawfulEqCmp Component.compare where
  eq_of_compare {a b} h := by
    rw [compare_eq, compareLex, Ordering.then_eq_eq] at h
    have hrank : a.rank = b.rank := LawfulEqCmp.eq_of_compare h.1
    have hnamed : a.named = b.named := LawfulEqCmp.eq_of_compare h.2
    cases a <;> cases b <;> simp_all [rank, named]

end Component

namespace PathKey

theorem compare_eq : PathKey.compare = List.compareLex Component.compare := by
  funext a b
  induction a generalizing b with
  | nil => cases b <;> rfl
  | cons x a ih =>
    cases b with
    | nil => rfl
    | cons y b =>
      rw [PathKey.compare, ih, List.compareLex]
      cases Component.compare x y <;> rfl

instance : TransCmp PathKey.compare := by
  rw [compare_eq]
  infer_instance

instance : LawfulEqCmp PathKey.compare := by
  rw [compare_eq]
  infer_instance

theorem le_iff {a b : PathKey} : le a b = true ↔ (PathKey.compare a b).isLE = true := by
  rw [le]
  cases PathKey.compare a b <;> decide

theorem le_trans {a b c : PathKey} (hab : le a b = true) (hbc : le b c = true) : le a c = true :=
  le_iff.mpr (TransCmp.isLE_trans (le_iff.mp hab) (le_iff.mp hbc))

theorem le_total (a b : PathKey) : (le a b || le b a) = true := by
  have hswap : PathKey.compare b a = (PathKey.compare a b).swap := OrientedCmp.eq_swap
  rw [Bool.or_eq_true, le_iff, le_iff, hswap]
  cases PathKey.compare a b <;> decide

theorem eq_of_le_of_le {a b : PathKey} (hab : le a b = true) (hba : le b a = true) : a = b := by
  have hswap : PathKey.compare b a = (PathKey.compare a b).swap := OrientedCmp.eq_swap
  have heq : PathKey.compare a b = .eq := by
    rw [le_iff] at hab hba
    rw [hswap] at hba
    cases hcompare : PathKey.compare a b <;> simp_all
  exact LawfulEqCmp.eq_of_compare heq

theorem lt_of_le_of_ne {a b : PathKey} (hle : le a b = true) (hne : a ≠ b) :
    PathKey.compare a b = .lt := by
  rw [le_iff] at hle
  cases hcompare : PathKey.compare a b with
  | lt => rfl
  | eq => exact absurd (LawfulEqCmp.eq_of_compare hcompare) hne
  | gt => rw [hcompare] at hle; cases hle

end PathKey

/-! ## 2. Lookups -/

theorem Path.same_iff {p q : Path} : p.same q = true ↔ p.components = q.components :=
  decide_eq_true_iff

namespace PathTable

variable {α : Type u} {β : Type v}

theorem has_eq (t : PathTable α) (p : Path) : t.has p = (t.get? p.components).isSome := rfl

theorem has_eq_isSome_find? (t : PathTable α) (p : Path) : t.has p = (t.find? p).isSome := by
  rw [has_eq, find?, Option.isSome_map]

theorem find?_congr (t : PathTable α) {p q : Path} (h : p.components = q.components) :
    t.find? p = t.find? q := by
  rw [find?, find?, h]

theorem has_congr (t : PathTable α) {p q : Path} (h : p.components = q.components) :
    t.has p = t.has q := by
  rw [has_eq, has_eq, h]

/-- A value that is put in stands under the spelling that was there first. -/
theorem get?_put (t : PathTable α) (p : Path) (a : α) (k : PathKey) :
    (t.put p a).get? k =
      if k = p.components then some (((t.get? k).map Prod.fst).getD p, a) else t.get? k := by
  rw [put, Table.get?_insert]
  by_cases hk : k = p.components
  · rw [if_pos hk, if_pos hk, hk]
  · rw [if_neg hk, if_neg hk]

theorem get?_remove (t : PathTable α) (p : Path) (k : PathKey) :
    (t.remove p).get? k = if k = p.components then none else t.get? k :=
  Table.get?_erase t p.components k

theorem find?_put (t : PathTable α) (p q : Path) (a : α) :
    (t.put p a).find? q = if q.components = p.components then some a else t.find? q := by
  rw [find?, get?_put]
  split <;> rfl

theorem find?_remove (t : PathTable α) (p q : Path) :
    (t.remove p).find? q = if q.components = p.components then none else t.find? q := by
  rw [find?, get?_remove]
  split <;> rfl

theorem has_put (t : PathTable α) (p q : Path) (a : α) :
    (t.put p a).has q = (decide (q.components = p.components) || t.has q) := by
  rw [has_eq, get?_put]
  by_cases h : q.components = p.components
  · simp [h]
  · simp [h, has_eq]

theorem has_remove (t : PathTable α) (p q : Path) :
    (t.remove p).has q = (!decide (q.components = p.components) && t.has q) := by
  rw [has_eq, get?_remove]
  by_cases h : q.components = p.components
  · simp [h]
  · simp [h, has_eq]

/-! ## 3. Paths in their order -/

/-- The keys of a table with the paths that are shown for them. -/
def spelled (t : PathTable α) : List (PathKey × Path) :=
  t.entries.map fun e => (e.1, e.2.1)

theorem mem_spelled {t : PathTable α} {x : PathKey × Path} :
    x ∈ t.spelled ↔ (t.get? x.1).map Prod.fst = some x.2 := by
  rw [spelled, List.mem_map, Option.map_eq_some_iff]
  constructor
  · rintro ⟨e, he, rfl⟩
    exact ⟨e.2, Table.get?_eq_some_iff.mpr he, rfl⟩
  · rintro ⟨y, hy, hfst⟩
    exact ⟨(x.1, y), Table.get?_eq_some_iff.mp hy, by rw [hfst]⟩

theorem nodup_spelled (t : PathTable α) : t.spelled.Nodup := by
  have hkeys : (t.spelled.map Prod.fst).Nodup := by
    rw [spelled, List.map_map]
    exact t.nodup
  exact (List.pairwise_map.mp hkeys).imp fun hne hsame => hne (congrArg Prod.fst hsame)

theorem sortedPaths_eq_map (t : PathTable α) :
    t.sortedPaths = (t.spelled.mergeSort fun a b => PathKey.le a.1 b.1).map Prod.snd := by
  have hmap : (t.entries.mergeSort fun a b => PathKey.le a.1 b.1).map (fun e => (e.1, e.2.1)) =
      t.spelled.mergeSort fun a b => PathKey.le a.1 b.1 :=
    List.map_mergeSort fun _ _ _ _ => rfl
  rw [← hmap, sortedPaths, sorted, List.map_map, List.map_map]
  rfl

/-- What is shown of a table is what can be looked up. -/
theorem mem_sorted {t : PathTable α} {x : Path × α} : x ∈ t.sorted ↔ ∃ k, t.get? k = some x := by
  rw [sorted, List.mem_map]
  constructor
  · rintro ⟨e, he, rfl⟩
    exact ⟨e.1, Table.get?_eq_some_iff.mpr (List.mem_mergeSort.mp he)⟩
  · rintro ⟨k, hk⟩
    exact ⟨(k, x), List.mem_mergeSort.mpr (Table.get?_eq_some_iff.mp hk), rfl⟩

/-- Whether two tables have the same paths, spelled alike. -/
def SamePaths (t : PathTable α) (u : PathTable β) : Prop :=
  ∀ k, (t.get? k).map Prod.fst = (u.get? k).map Prod.fst

namespace SamePaths

variable {t : PathTable α} {u : PathTable β}

theorem has_eq (h : SamePaths t u) (p : Path) : t.has p = u.has p := by
  rw [PathTable.has_eq, PathTable.has_eq, ← Option.isSome_map, h p.components, Option.isSome_map]

theorem put (h : SamePaths t u) (p : Path) (a : α) (b : β) : SamePaths (t.put p a) (u.put p b) := by
  intro k
  rw [get?_put, get?_put]
  split
  · rw [Option.map_some, Option.map_some, h k]
  · exact h k

/-- A new value for a path that is there changes no path. -/
theorem put_right (h : SamePaths t u) {p : Path} (hp : u.has p = true) (b : β) :
    SamePaths t (u.put p b) := by
  intro k
  rw [get?_put, h k]
  split
  · rename_i hk
    rw [PathTable.has_eq, ← hk, Option.isSome_iff_exists] at hp
    obtain ⟨x, hx⟩ := hp
    rw [hx]
    rfl
  · rfl

theorem remove (h : SamePaths t u) (p : Path) : SamePaths (t.remove p) (u.remove p) := by
  intro k
  rw [get?_remove, get?_remove]
  split
  · rfl
  · exact h k

/-- **What is shown of a table depends on its lookups alone.** -/
theorem sortedPaths_eq (h : SamePaths t u) : t.sortedPaths = u.sortedPaths := by
  have hperm : t.spelled.Perm u.spelled := by
    refine (List.perm_ext_iff_of_nodup t.nodup_spelled u.nodup_spelled).mpr ?_
    intro x
    rw [mem_spelled, mem_spelled, h x.1]
  have hsorted : ∀ l : List (PathKey × Path),
      (l.mergeSort fun a b => PathKey.le a.1 b.1).Pairwise fun a b => PathKey.le a.1 b.1 = true :=
    List.pairwise_mergeSort (fun _ _ _ => PathKey.le_trans) (fun _ _ => PathKey.le_total _ _)
  rw [sortedPaths_eq_map, sortedPaths_eq_map]
  congr 1
  refine List.Perm.eq_of_pairwise ?_ (hsorted _) (hsorted _)
    ((List.mergeSort_perm _ _).trans (hperm.trans (List.mergeSort_perm _ _).symm))
  intro x y hx hy hxy hyx
  rw [List.mem_mergeSort, mem_spelled] at hx hy
  have hkey := PathKey.eq_of_le_of_le hxy hyx
  rw [← hkey, ← h x.1, hx] at hy
  exact Prod.ext hkey (Option.some.inj hy)

end SamePaths

/-! ## 4. Paths under their own keys -/

/-- Whether every path stands under its components. -/
def Keyed (t : PathTable α) : Prop :=
  ∀ k x, t.get? k = some x → x.1.components = k

namespace Keyed

variable {t : PathTable α}

theorem empty : Keyed (.empty : PathTable α) := by
  intro k x hx
  cases hx

theorem put (h : Keyed t) (p : Path) (a : α) : Keyed (t.put p a) := by
  intro k x hx
  rw [get?_put] at hx
  split at hx
  · rename_i hk
    obtain rfl := Option.some.inj hx
    cases hold : t.get? k with
    | none => exact hk.symm
    | some y => exact h k y hold
  · exact h k x hx

theorem remove (h : Keyed t) (p : Path) : Keyed (t.remove p) := by
  intro k x hx
  rw [get?_remove] at hx
  split at hx
  · cases hx
  · exact h k x hx

theorem filter (h : Keyed t) (keep : PathKey → Path × α → Bool) : Keyed (Table.filter t keep) := by
  intro k x hx
  rw [Table.get?_filter, Option.filter_eq_some_iff] at hx
  exact h k x hx.1

theorem map_components_spelled (h : Keyed t) :
    (t.spelled.map fun x => x.2.components) = t.spelled.map Prod.fst := by
  refine List.map_congr_left ?_
  intro x hx
  obtain ⟨y, hy, hfst⟩ := Option.map_eq_some_iff.mp (mem_spelled.mp hx)
  rw [← hfst]
  exact h x.1 y hy

theorem has_of_mem_sortedPaths (h : Keyed t) {p : Path} (hp : p ∈ t.sortedPaths) :
    t.has p = true := by
  rw [sortedPaths_eq_map, List.mem_map] at hp
  obtain ⟨x, hx, rfl⟩ := hp
  rw [List.mem_mergeSort, mem_spelled] at hx
  obtain ⟨y, hy, hfst⟩ := Option.map_eq_some_iff.mp hx
  rw [has_eq, ← hfst, h x.1 y hy, hy]
  rfl

/-- Different paths of a table name different things. -/
theorem nodup_sortedPaths (h : Keyed t) : (t.sortedPaths.map Path.components).Nodup := by
  have hkeys : (t.spelled.map fun x => x.2.components).Nodup := by
    rw [h.map_components_spelled, spelled, List.map_map]
    exact t.nodup
  rw [sortedPaths_eq_map, List.map_map]
  exact ((List.mergeSort_perm t.spelled _).map _).nodup_iff.mpr hkeys

/-- The paths of a table are shown in their order, none of them twice. -/
theorem pairwise_sorted (h : Keyed t) :
    t.sorted.Pairwise fun x y => PathKey.compare x.1.components y.1.components = .lt := by
  have hle : ∀ l : List (PathKey × Path × α),
      (l.mergeSort fun a b => PathKey.le a.1 b.1).Pairwise fun a b => PathKey.le a.1 b.1 = true :=
    List.pairwise_mergeSort (fun _ _ _ => PathKey.le_trans) (fun _ _ => PathKey.le_total _ _)
  have hne : (t.entries.mergeSort fun a b => PathKey.le a.1 b.1).Pairwise
      fun a b => a.1 ≠ b.1 :=
    List.pairwise_map.mp (((List.mergeSort_perm t.entries _).map Prod.fst).nodup_iff.mpr t.nodup)
  rw [sorted, List.pairwise_map]
  refine ((hle t.entries).and hne).imp_of_mem ?_
  intro a b ha hb hab
  rw [h a.1 a.2 (Table.get?_eq_some_iff.mpr (List.mem_mergeSort.mp ha)),
    h b.1 b.2 (Table.get?_eq_some_iff.mpr (List.mem_mergeSort.mp hb))]
  exact PathKey.lt_of_le_of_ne hab.1 hab.2

/-- What is shown for a path is what can be looked up under it. -/
theorem find?_sorted (h : Keyed t) (p : Path) :
    t.sorted.find? (fun x => x.1.same p) = t.get? p.components := by
  have hfound : ∀ x, x ∈ t.sorted → x.1.same p = true → t.get? p.components = some x := by
    intro x hx hsame
    obtain ⟨k, hk⟩ := mem_sorted.mp hx
    rw [← Path.same_iff.mp hsame, h k x hk]
    exact hk
  cases hfind : t.sorted.find? fun x => x.1.same p with
  | some x =>
    exact (hfound x (List.mem_of_find?_eq_some hfind)
      (List.find?_some (p := fun x : Path × α => x.1.same p) hfind)).symm
  | none =>
    cases hget : t.get? p.components with
    | none => rfl
    | some x =>
      have hsame : x.1.same p = true := Path.same_iff.mpr (h _ x hget)
      exact absurd hsame (List.find?_eq_none.mp hfind x (mem_sorted.mpr ⟨_, hget⟩))

/-- Without a path, the others stay in their order. -/
theorem sortedPaths_remove (h : Keyed t) (p : Path) :
    (t.remove p).sortedPaths = t.sortedPaths.filter fun q => !q.same p := by
  have hlt : ∀ {u : PathTable α}, Keyed u → u.sortedPaths.Pairwise fun q r =>
      PathKey.compare q.components r.components = .lt := fun hu =>
    List.pairwise_map.mpr hu.pairwise_sorted
  have hne : ∀ {q r : Path}, PathKey.compare q.components r.components = .lt → q ≠ r := by
    rintro q r hqr rfl
    have hself : PathKey.compare q.components q.components = .eq := ReflCmp.compare_self
    rw [hself] at hqr
    cases hqr
  refine List.Perm.eq_of_pairwise ?_ (hlt (h.remove p)) ((hlt h).filter _) ?_
  · intro q r _ _ hqr hrq
    have hswap : PathKey.compare q.components r.components =
        (PathKey.compare r.components q.components).swap := OrientedCmp.eq_swap
    rw [hqr, hrq] at hswap
    cases hswap
  · refine (List.perm_ext_iff_of_nodup ((hlt (h.remove p)).imp hne)
      (((hlt h).filter _).imp hne)).mpr ?_
    intro q
    rw [List.mem_filter, sortedPaths, sortedPaths, List.mem_map, List.mem_map]
    constructor
    · rintro ⟨x, hx, rfl⟩
      obtain ⟨k, hk⟩ := mem_sorted.mp hx
      rw [get?_remove] at hk
      split at hk
      · cases hk
      · rename_i hother
        rw [← h k x hk, ← Path.same_iff] at hother
        exact ⟨⟨x, mem_sorted.mpr ⟨k, hk⟩, rfl⟩, by simpa using hother⟩
    · rintro ⟨⟨x, hx, rfl⟩, hother⟩
      obtain ⟨k, hk⟩ := mem_sorted.mp hx
      refine ⟨x, mem_sorted.mpr ⟨k, ?_⟩, rfl⟩
      rw [get?_remove, if_neg, hk]
      rw [← h k x hk, ← Path.same_iff]
      simpa using hother

end Keyed
end PathTable
end AnalysisRunner
