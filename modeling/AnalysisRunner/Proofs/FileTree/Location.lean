import Mathlib.Data.List.Nodup
import AnalysisRunner.Proofs.FileTree.Look
import AnalysisRunner.Watch.Scan

/-!
# Paths of locations

A location is a list of names, and its path spells them one after the other.  If the names can
be names of files, the path has them as its components, a name more is a joined path
(`Location.path_concat`), and what remains of a path behind the path of a location above it
spells the names below (`Location.strip?_path`).

On a disk without links the path of a location leads there (`FileTree.IsLinkless.find_path`).
The second half is about such disks: what a directory holds, and how deep they are.
-/

namespace AnalysisRunner

/-! ## 1. Spelled names -/

namespace Path

/-- Names, each with a separator behind it. -/
def stem (names : List Bytes) : Bytes :=
  names.flatMap fun name => name ++ [slash]

theorem spelling_append (names : List Bytes) {below : List Bytes} (hbelow : below ≠ []) :
    spelling ((names ++ below).map .name) = stem names ++ spelling (below.map .name) := by
  induction names with
  | nil => rfl
  | cons name rest ih =>
    obtain ⟨first, others, hsplit⟩ :=
      List.exists_cons_of_ne_nil (List.append_ne_nil_of_right_ne_nil rest hbelow)
    rw [List.cons_append, List.map_cons, stem, List.flatMap_cons,
      List.append_assoc, List.append_assoc, List.singleton_append]
    rw [hsplit, List.map_cons] at ih ⊢
    rw [spelling_cons (by simp), ih]
    rfl

theorem spansFrom_append (start : Nat) (names below : List Bytes) :
    spansFrom start (names ++ below) =
      spansFrom start names ++ spansFrom (start + (stem names).length) below := by
  induction names generalizing start with
  | nil => rfl
  | cons name rest ih =>
    have hlength : start + name.length + 1 + (stem rest).length =
        start + (stem (name :: rest)).length := by
      simp only [stem, List.flatMap_cons, List.length_append, List.length_cons, List.length_nil]
      omega
    rw [List.cons_append, spansFrom, spansFrom, ih, hlength]
    cases component? name <;> rfl

theorem spansFrom_singleton {name : Bytes} (h : (Component.name name).IsInner) (start : Nat) :
    spansFrom start [name] = [⟨.name name, start, start + name.length⟩] := by
  have hname : component? name = some (.name name) := h.1
  rw [spansFrom, hname]
  rfl

theorem length_spansFrom {names : List Bytes} (h : ∀ name ∈ names, (Component.name name).IsInner)
    (start : Nat) : (spansFrom start names).length = names.length := by
  induction names generalizing start with
  | nil => rfl
  | cons name rest ih =>
    rw [← List.singleton_append, spansFrom_append,
      spansFrom_singleton (h name (List.mem_cons_self ..)),
      List.length_append, List.length_append, ih fun n hn => h n (List.mem_cons_of_mem _ hn)]
    rfl

/-- The spans of names reach from their start over all that the names spell. -/
theorem exists_spansFrom {names : List Bytes} (h : ∀ name ∈ names, (Component.name name).IsInner)
    (hne : names ≠ []) (start : Nat) :
    (∃ first rest, spansFrom start names = first :: rest ∧ first.start = start) ∧
      ∃ last, (spansFrom start names).getLast? = some last ∧
        last.stop = start + (spelling (names.map .name)).length := by
  refine ⟨?_, ?_⟩
  · obtain ⟨name, rest, rfl⟩ := List.exists_cons_of_ne_nil hne
    rw [← List.singleton_append, spansFrom_append,
      spansFrom_singleton (h name (List.mem_cons_self ..))]
    exact ⟨_, _, rfl, rfl⟩
  · obtain ⟨init, name, rfl⟩ := (List.eq_nil_or_concat' names).resolve_left hne
    rw [spansFrom_append, spansFrom_singleton (h name (by simp)), List.getLast?_concat,
      spelling_append init (List.cons_ne_nil name []), List.length_append, ← Nat.add_assoc]
    exact ⟨_, rfl, rfl⟩

end Path

/-! ## 2. The path of a location -/

namespace Location

variable {loc below : Location} {name : Bytes}

/-- Whether all names of a location can be names of files. -/
def IsNamed (loc : Location) : Prop :=
  ∀ name ∈ loc, name.IsFileName

theorem bytes_path (loc : Location) : loc.path.bytes = slash :: Path.spelling (loc.map .name) :=
  Path.spelling_root _

theorem components_path (h : loc.IsNamed) : loc.path.components = .root :: loc.map .name := by
  refine Path.components_spelling ⟨[.root], loc.map .name, rfl, .inr (.inl rfl), ?_⟩
  intro c hc
  obtain ⟨name, hname, rfl⟩ := List.mem_map.mp hc
  exact (h name hname).inner

theorem hops_path (h : loc.IsNamed) : loc.path.hops = loc.map .down := by
  rw [Path.hops, components_path h, List.filterMap_cons_none rfl, List.filterMap_map,
    ← List.filterMap_eq_map]
  rfl

theorem path_injective {loc' : Location} (h : loc.IsNamed) (h' : loc'.IsNamed)
    (hsame : loc.path.components = loc'.path.components) : loc = loc' := by
  rw [components_path h, components_path h', List.cons.injEq] at hsame
  exact (List.map_inj_right fun a b => Component.name.inj).mp hsame.2

theorem isAbsolute_path (loc : Location) : loc.path.isAbsolute = true := by
  rw [Path.isAbsolute, bytes_path]
  rfl

theorem path_concat_eq (loc : Location) (name : Bytes) :
    (loc ++ [name]).path = ⟨slash :: (Path.stem loc ++ name)⟩ := by
  rw [path, Path.spelling_root, Path.spelling_append loc (List.cons_ne_nil name [])]
  rfl

/-- **The path of a name in a directory is joined.** -/
theorem path_concat (hloc : loc.IsNamed) (hname : name.IsFileName) :
    (loc ++ [name]).path = loc.path.join ⟨name⟩ := by
  have hjoin : ¬ (Path.isAbsolute ⟨name⟩ = true ∨ loc.path.bytes = []) := by
    rw [Path.isAbsolute_name hname.inner, bytes_path]
    simp
  rw [path_concat_eq, Path.join, if_neg hjoin]
  rcases List.eq_nil_or_concat' loc with rfl | ⟨init, last, rfl⟩
  · rfl
  · have hlast := (hloc last (by simp)).inner
    have hends : (path (init ++ [last])).bytes.getLast? ≠ some slash := by
      rw [path_concat_eq, ← List.cons_append,
        List.getLast?_append_of_ne_nil _ (Path.name_ne_nil hlast)]
      exact fun hslash => hlast.2 (List.mem_of_getLast? hslash)
    rw [if_neg hends, path_concat_eq]
    simp [Path.stem]

theorem isDirectoryOnly_path (hloc : loc.IsNamed) (hne : loc ≠ []) :
    loc.path.isDirectoryOnly = false := by
  obtain ⟨init, last, rfl⟩ := (List.eq_nil_or_concat' loc).resolve_left hne
  have hinit : IsNamed init := fun name hname => hloc name (List.mem_append_left _ hname)
  have hlast := hloc last (by simp)
  rw [path_concat hinit hlast, Path.isDirectoryOnly_join _ hlast.inner]

/-! ## 3. What remains below a location -/

theorem spans_path (hloc : loc.IsNamed) :
    loc.path.spans = ⟨.root, 0, 1⟩ :: Path.spansFrom 1 loc := by
  have hsegments : Path.spansFrom 0 (Path.segments loc.path.bytes) = Path.spansFrom 1 loc := by
    rw [bytes_path, Path.segments_slash, Path.spansFrom]
    cases loc with
    | nil => rfl
    | cons name rest =>
      have hinner : ∀ c ∈ Component.name name :: rest.map .name, c.IsInner := by
        intro c hc
        rw [← List.map_cons] at hc
        obtain ⟨n, hn, rfl⟩ := List.mem_map.mp hc
        exact (hloc n hn).inner
      rw [List.map_cons, Path.segments_spelling hinner, ← List.map_cons, List.map_map,
        List.map_congr_left fun n _ => show (Component.bytes ∘ Component.name) n = n from rfl,
        List.map_id']
      rfl
  rw [Path.spans, hsegments, bytes_path]
  rfl

theorem startsWith_path (hloc : loc.IsNamed) (hbelow : IsNamed below) :
    (loc ++ below).path.startsWith loc.path = true := by
  have hall : IsNamed (loc ++ below) := fun name hname =>
    (List.mem_append.mp hname).elim (hloc name) (hbelow name)
  rw [Path.startsWith, List.isPrefixOf_iff_prefix, components_path hloc, components_path hall,
    List.map_append, ← List.cons_append]
  exact List.prefix_append ..

/-- **What remains of a path behind the location that it begins with spells the names below.** -/
theorem strip?_path (hloc : loc.IsNamed) (hbelow : IsNamed below) (hne : below ≠ []) :
    (loc ++ below).path.strip? loc.path = some ⟨Path.spelling (below.map .name)⟩ := by
  have hall : IsNamed (loc ++ below) := fun name hname =>
    (List.mem_append.mp hname).elim (hloc name) (hbelow name)
  have hcount : loc.path.components.length = loc.length + 1 := by
    rw [components_path hloc, List.length_cons, List.length_map]
  have hspans : (loc ++ below).path.spans = (⟨.root, 0, 1⟩ :: Path.spansFrom 1 loc) ++
      Path.spansFrom (1 + (Path.stem loc).length) below := by
    rw [spans_path hall, Path.spansFrom_append]
    rfl
  have hbytes : (loc ++ below).path.bytes =
      (slash :: Path.stem loc) ++ Path.spelling (below.map .name) := by
    rw [bytes_path, Path.spelling_append loc hne]
    rfl
  have hdrop : (loc ++ below).path.spans.drop (loc.length + 1) =
      Path.spansFrom (1 + (Path.stem loc).length) below := by
    rw [hspans]
    refine List.drop_left' ?_
    rw [List.length_cons, Path.length_spansFrom fun name hname => (hloc name hname).inner]
  obtain ⟨⟨first, rest, hfirst, hstart⟩, last, hlast, hstop⟩ := Path.exists_spansFrom
    (fun name hname => (hbelow name hname).inner) hne (1 + (Path.stem loc).length)
  have hlast' : (loc ++ below).path.spans.getLast? = some last := by
    rw [hspans, List.getLast?_append, hlast]
    rfl
  rw [Path.strip?, if_pos (startsWith_path hloc hbelow)]
  simp only [hcount, hdrop, hfirst, hlast', Nat.add_one_ne_zero, if_false, hstart, hstop]
  rw [Path.slice, hbytes]
  have hlength : (slash :: Path.stem loc).length = 1 + (Path.stem loc).length := by
    rw [List.length_cons, Nat.add_comm]
  rw [← hlength, List.take_of_length_le (Nat.le_of_eq List.length_append), List.drop_left]

end Location

/-! ## 4. Disks without links -/

namespace FileTree

variable {t : FileTree} {loc : Location} {n : Node}

/-- Whether a disk is a tree of directories and files, under names that files can have. -/
structure IsLinkless (t : FileTree) : Prop where
  isTree : t.IsTree
  named : ∀ {loc n}, t.nodes.get? loc = some n → loc.IsNamed
  noLink : ∀ {loc target}, t.nodes.get? loc ≠ some (.link target)

namespace IsLinkless

theorem isNamed (h : t.IsLinkless) (hn : t.nodeAt? loc = some n) : loc.IsNamed := by
  rw [nodeAt?] at hn
  split at hn
  · rename_i hnil
    rw [hnil]
    intro name hname
    cases hname
  · exact h.named hn

/-- From a directory the names of a location lead down to it. -/
theorem walk_down (h : t.IsLinkless) (follow : Bool) (links : Nat) {cur below : Location}
    (hcur : t.nodeAt? cur = some .directory) (hn : t.nodeAt? (cur ++ below) = some n) :
    t.walk follow links cur (below.map .down) = .ok (.node (cur ++ below) n) := by
  induction below generalizing cur with
  | nil =>
    rw [List.append_nil] at hn ⊢
    rw [List.map_nil, walk, Option.some.inj (hcur.symm.trans hn)]
  | cons name rest ih =>
    have hshort : ¬ maxNameLength < name.length :=
      Nat.not_lt.mpr (h.isNamed hn name (by simp)).short
    rw [← List.singleton_append, ← List.append_assoc] at hn
    rw [List.map_cons, walk, if_neg hshort]
    by_cases hrest : rest = []
    · rw [hrest, List.append_nil, nodeAt?_concat] at hn
      rw [hrest]
      cases n with
      | directory => simp [hn, walk]
      | file content modified => simp [hn]
      | link target => exact absurd hn h.noLink
    · have hdir : t.nodeAt? (cur ++ [name]) = some .directory := by
        rw [nodeAt?, if_neg (by simp)] at hn
        exact h.isTree.above rest hrest hn
      have hnode := (t.nodeAt?_concat cur name).symm.trans hdir
      simp only [hnode, ih hdir hn, List.append_assoc, List.singleton_append]

/-- **The path of a location leads there.** -/
theorem find_path (h : t.IsLinkless) (hn : t.nodeAt? loc = some n) :
    t.find loc.path = .ok (loc, n) := by
  have hnamed := h.isNamed hn
  have hempty : loc.path.bytes.isEmpty = false := by
    rw [Location.bytes_path]
    rfl
  have hnul : ¬ loc.path.bytes.contains 0 = true := by
    rw [List.contains_iff_mem, Path.zero_mem_iff, Location.components_path hnamed]
    rintro ⟨c, hc, hzero⟩
    rcases List.mem_cons.mp hc with rfl | hc
    · simp [Component.bytes, slash] at hzero
    · obtain ⟨name, hname, rfl⟩ := List.mem_map.mp hc
      exact (hnamed name hname).noNul hzero
  have hwalk := h.walk_down (true || loc.path.isDirectoryOnly) maxLinks
    (show t.nodeAt? [] = some .directory from rfl) hn
  rw [← Location.hops_path hnamed] at hwalk
  rw [find, resolve, hempty, if_neg Bool.false_ne_true, if_neg hnul,
    loc.isAbsolute_path, if_pos rfl, hwalk, List.nil_append]
  cases n with
  | directory => rfl
  | link target => rfl
  | file content modified =>
    have hne : loc ≠ [] := by
      rintro rfl
      cases hn
    simp [Location.isDirectoryOnly_path hnamed hne]

theorem nodeAt?_of_find (h : t.IsLinkless) {p : Path} (hfind : t.find p = .ok (loc, n)) :
    t.nodeAt? loc = some n := by
  rw [find] at hfind
  split at hfind
  · rename_i hresolve
    obtain ⟨rfl, rfl⟩ := Prod.mk.inj (Except.ok.inj hfind)
    rcases h.isTree.place_of_walk (h.isTree.start p) (walk_of_resolve hresolve) with
      ⟨loc, n, hplace, hn, -⟩ | ⟨dir, name, hplace, -⟩
    · obtain ⟨rfl, rfl⟩ := Place.node.inj hplace
      exact hn
    · cases hplace
  · cases hfind
  · cases hfind

theorem empty : FileTree.empty.IsLinkless :=
  ⟨⟨fun hn => (nomatch hn), rfl⟩, fun hn => (nomatch hn), fun hlink => (nomatch hlink)⟩

/-- A new file or directory makes no link. -/
theorem put (h : t.IsLinkless) {name : Bytes} (hdir : t.nodeAt? loc = some .directory)
    (hname : name.IsFileName) (hfree : t.nodes.get? (loc ++ [name]) = none)
    (hn : ∀ target, n ≠ .link target) : (t.put (loc ++ [name]) n).IsLinkless := by
  refine ⟨h.isTree.put hdir fun hfull => ?_, fun hm => ?_, fun hlink => ?_⟩
  · rw [hfree] at hfull
    cases hfull
  · rw [get?_put] at hm
    split at hm
    · rename_i hloc
      rw [hloc]
      intro name' hname'
      rcases List.mem_append.mp hname' with hname' | hname'
      · exact h.isNamed hdir name' hname'
      · exact List.mem_singleton.mp hname' ▸ hname
    · exact h.named hm
  · rw [get?_put] at hlink
    split at hlink
    · exact hn _ (Option.some.inj hlink)
    · exact h.noLink hlink

end IsLinkless

/-- What an entry of the table is in a directory. -/
def childAt? (loc : Location) (e : Location × Node) : Option (Bytes × Node) :=
  match e.1.getLast? with
  | some name => if e.1.dropLast = loc then some (name, e.2) else none
  | none => none

theorem childAt?_eq_some_iff {e : Location × Node} {name : Bytes} :
    childAt? loc e = some (name, n) ↔ e = (loc ++ [name], n) := by
  constructor
  · intro h
    unfold childAt? at h
    split at h
    · rename_i last hlast
      split at h
      · rename_i hloc
        obtain ⟨init, hinit⟩ := List.getLast?_eq_some_iff.mp hlast
        rw [hinit, List.dropLast_concat] at hloc
        obtain ⟨rfl, rfl⟩ := Prod.mk.inj (Option.some.inj h)
        rw [← hloc, ← hinit]
      · cases h
    · cases h
  · rintro rfl
    simp [childAt?]

theorem children_perm (t : FileTree) (loc : Location) :
    (t.children loc).Perm (t.nodes.entries.filterMap (childAt? loc)) :=
  List.mergeSort_perm ..

/-- What a directory holds. -/
theorem mem_children_iff {name : Bytes} :
    (name, n) ∈ t.children loc ↔ t.nodes.get? (loc ++ [name]) = some n := by
  rw [(t.children_perm loc).mem_iff, List.mem_filterMap, Table.get?_eq_some_iff]
  constructor
  · rintro ⟨e, he, hchild⟩
    rwa [childAt?_eq_some_iff.mp hchild] at he
  · intro he
    exact ⟨_, he, childAt?_eq_some_iff.mpr rfl⟩

/-- The names in a directory are different. -/
theorem nodup_children (t : FileTree) (loc : Location) : ((t.children loc).map Prod.fst).Nodup := by
  have hnodup : (t.children loc).Nodup := by
    rw [(t.children_perm loc).nodup_iff]
    refine List.Nodup.filterMap ?_ (List.Nodup.of_map _ t.nodes.nodup)
    intro e e' child hchild hchild'
    rw [childAt?_eq_some_iff.mp hchild, childAt?_eq_some_iff.mp hchild']
  refine List.Nodup.map_on ?_ hnodup
  rintro ⟨name, n⟩ hn ⟨name', n'⟩ hn' hsame
  obtain rfl : name = name' := hsame
  rw [mem_children_iff] at hn hn'
  rw [Option.some.inj (hn.symm.trans hn')]

/-- No location is longer than the disk is high. -/
theorem length_le_height (hn : t.nodes.get? loc = some n) : loc.length ≤ t.height := by
  have hfold : ∀ (lengths : List Nat) (m : Nat),
      m ≤ lengths.foldl max m ∧ ∀ k ∈ lengths, k ≤ lengths.foldl max m := by
    intro lengths
    induction lengths with
    | nil => simp
    | cons k rest ih =>
      intro m
      obtain ⟨hmax, hrest⟩ := ih (max m k)
      simp only [List.foldl_cons, List.mem_cons, forall_eq_or_imp]
      exact ⟨by omega, by omega, hrest⟩
  refine (hfold _ 0).2 _ (List.mem_map_of_mem ?_)
  exact List.mem_map_of_mem (f := Prod.fst) (Table.get?_eq_some_iff.mp hn)

end FileTree
end AnalysisRunner
