import Mathlib.Data.List.Nodup
import AnalysisRunner.Proofs.Watch.Lawful

/-!
# What a scan reaches on any disk

On a disk with links a scan still goes down through real directories only, so what it finds is told
by the names below the directory where it begins (`FileTree.Finds`).  Only the last name may be a
link, and then the file is the one that the link leads to.  Links that lead back up make no
difference, because a scan looks at them and does not go through them.

The path under which something is found is the path of the directory, however that is spelled, with
the names joined to it (`Path.under`).  If they are names that files can have, the names can be read
off the path, hence nothing is found twice (`nodup_scan`).
-/

namespace AnalysisRunner

/-! ## 1. Names below a directory -/

namespace Path

/-- The path of names below a directory. -/
def under (dir : Path) (names : List Bytes) : Path :=
  names.foldl (fun dir name => dir.join ⟨name⟩) dir

@[simp] theorem under_nil (dir : Path) : dir.under [] = dir := rfl

@[simp] theorem under_cons (dir : Path) (name : Bytes) (names : List Bytes) :
    dir.under (name :: names) = (dir.join ⟨name⟩).under names := rfl

theorem components_under (dir : Path) {names : List Bytes} (h : Location.IsNamed names) :
    (dir.under names).components = dir.components ++ names.map .name := by
  induction names generalizing dir with
  | nil => simp
  | cons name names ih =>
    rw [under_cons, ih _ fun n hn => h n (List.mem_cons_of_mem _ hn),
      components_join dir (h name (List.mem_cons_self ..)).inner]
    simp

end Path

namespace FileTree

variable {t disk : FileTree} {filter : Filter} {root dir p : Path} {loc below : Location}
  {name : Bytes} {n : Node} {e : WatchEntry} {fuel : Nat}

/-- A walk that ends in a directory has gone a way to it. -/
theorem exists_descend_of_walk {links : Nat} {cur : Location} {hs : List Hop}
    (h : t.walk true links cur hs = .ok (.node loc .directory)) :
    ∃ left, t.descend links cur hs = .ok (left, loc) := by
  fun_induction walk t true links cur hs with
  | case1 links cur =>
    obtain ⟨rfl, -⟩ := Place.node.inj (Except.ok.inj h)
    exact ⟨links, by rw [descend]⟩
  | case2 links cur rest ih =>
    rw [descend]
    exact ih h
  | case3 => cases h
  | case4 => cases h
  | case5 => cases h
  | case6 links cur name rest hshort loc' hnode ih =>
    have hdir : t.nodes.get? (cur ++ [name]) = some .directory := hnode
    rw [descend, if_neg hshort]
    simp only [hdir]
    exact ih h
  | case7 links cur name rest hshort loc' content modified hnode hempty =>
    exact absurd (Place.node.inj (Except.ok.inj h)).2 (by simp)
  | case8 => cases h
  | case9 links cur name rest hshort loc' target hnode hlast => simp at hlast
  | case10 => cases h
  | case11 cur name rest hshort loc' target hnode hlast links ih =>
    have hlink : t.nodes.get? (cur ++ [name]) = some (.link target) := hnode
    rw [descend, if_neg hshort]
    simp only [hlink]
    simpa only [dite_eq_ite] using ih (Path.eq_ok_of_allow h)

/-- **A name that is no link leads to what is there under it.** -/
theorem find_join (hname : name.IsFileName) (hdir : t.find dir = .ok (loc, .directory))
    (hn : t.nodes.get? (loc ++ [name]) = some n) (hplain : ∀ target, n ≠ .link target) :
    t.find (dir.join ⟨name⟩) = .ok (loc ++ [name], n) := by
  have hresolve : t.resolve true dir = .ok (.node loc .directory) := by
    rw [find] at hdir
    split at hdir
    · rename_i hresolve
      rw [hresolve]
      obtain ⟨rfl, rfl⟩ := Prod.mk.inj (Except.ok.inj hdir)
      rfl
    · cases hdir
    · cases hdir
  have hnul : dir.bytes.contains 0 = false := by
    simpa using zero_notMem_of_resolve hresolve
  obtain ⟨left, hway⟩ := exists_descend_of_walk (walk_of_resolve hresolve)
  have hplainName : t.IsPlainName dir name := by
    intro r target hr hlink
    obtain rfl := Except.ok.inj (hr.symm.trans hway)
    exact hplain target (Option.some.inj (hn.symm.trans hlink))
  rw [find, resolve_join_of_plain true hname hplainName hnul hway, hn]
  rfl

theorem look_eq_file_iff {s : Signature} : t.look p = .file s ↔
    ∃ loc content modified, t.find p = .ok (loc, .file content modified) ∧
      s = ⟨modified, content.length⟩ := by
  unfold look
  constructor
  · intro h
    split at h
    · rename_i loc content modified hfind
      exact ⟨loc, content, modified, hfind, (Sight.file.inj h).symm⟩
    · cases h
    · cases h
  · rintro ⟨loc, content, modified, hfind, rfl⟩
    rw [hfind]

/-! ## 2. What is found -/

/-- Whether a scan of the directory at a location is to find an entry under the names `below`. -/
structure Finds (disk : FileTree) (filter : Filter) (root dir : Path) (loc below : Location)
    (e : WatchEntry) : Prop where
  /-- It lies below the directory, -/
  nonempty : below ≠ []
  /-- and it is no directory. -/
  entry : ∃ n, disk.nodes.get? (loc ++ below) = some n ∧ n ≠ .directory
  /-- What lies between is a real directory -/
  real : ∀ mid rest, below = mid ++ rest → mid ≠ [] → rest ≠ [] →
    disk.nodes.get? (loc ++ mid) = some .directory
  /-- that is not ignored. -/
  entered : ∀ mid rest, below = mid ++ rest → mid ≠ [] → rest ≠ [] →
    filter.isIgnored (dir.under mid) root = false
  accepted : filter.accepts (dir.under below) root = true
  /-- Its path leads to a file, and that is the one which is seen. -/
  file : ∃ loc content modified, disk.find (dir.under below) = .ok (loc, .file content modified) ∧
    e = ⟨dir.under below, some ⟨modified, content.length⟩⟩

theorem finds_singleton_iff : disk.Finds filter root dir loc [name] e ↔
    ∃ n, disk.nodes.get? (loc ++ [name]) = some n ∧ n ≠ .directory ∧
      filter.accepts (dir.join ⟨name⟩) root = true ∧
        ∃ s, disk.look (dir.join ⟨name⟩) = .file s ∧ e = ⟨dir.join ⟨name⟩, some s⟩ := by
  constructor
  · rintro ⟨-, ⟨n, hn, hne⟩, -, -, haccepts, loc', content, modified, hfind, rfl⟩
    exact ⟨n, hn, hne, haccepts, _, look_eq_file_iff.mpr ⟨loc', content, modified, hfind, rfl⟩, rfl⟩
  · rintro ⟨n, hn, hne, haccepts, s, hlook, rfl⟩
    obtain ⟨loc', content, modified, hfind, rfl⟩ := look_eq_file_iff.mp hlook
    -- nothing lies between a directory and a name in it
    have hbetween : ∀ mid rest : Location, [name] = mid ++ rest → mid ≠ [] → rest ≠ [] → False := by
      intro mid rest hsplit hmid hrest
      have hlength := congrArg List.length hsplit
      rw [List.length_append, List.length_singleton] at hlength
      have hmid' := List.length_pos_iff.mpr hmid
      have hrest' := List.length_pos_iff.mpr hrest
      omega
    exact ⟨List.cons_ne_nil _ _, ⟨n, hn, hne⟩,
      fun mid rest hs hm hr => (hbetween mid rest hs hm hr).elim,
      fun mid rest hs hm hr => (hbetween mid rest hs hm hr).elim, haccepts, loc', content, modified,
      hfind, rfl⟩

theorem finds_cons_iff (hbelow : below ≠ []) : disk.Finds filter root dir loc (name :: below) e ↔
    disk.nodes.get? (loc ++ [name]) = some .directory ∧
      filter.isIgnored (dir.join ⟨name⟩) root = false ∧
      disk.Finds filter root (dir.join ⟨name⟩) (loc ++ [name]) below e := by
  have hassoc : ∀ names, loc ++ name :: names = loc ++ [name] ++ names := by simp
  constructor
  · rintro ⟨-, hentry, hreal, hentered, haccepts, hfile⟩
    refine ⟨hreal [name] below rfl (List.cons_ne_nil _ _) hbelow,
      hentered [name] below rfl (List.cons_ne_nil _ _) hbelow, hbelow, hassoc _ ▸ hentry, ?_, ?_,
      haccepts, hfile⟩
    · intro mid rest hsplit hmid hrest
      rw [← hassoc]
      exact hreal (name :: mid) rest (by rw [hsplit]; rfl) (List.cons_ne_nil _ _) hrest
    · intro mid rest hsplit hmid hrest
      exact hentered (name :: mid) rest (by rw [hsplit]; rfl) (List.cons_ne_nil _ _) hrest
  · rintro ⟨hdir, hignored, -, hentry, hreal, hentered, haccepts, hfile⟩
    refine ⟨List.cons_ne_nil _ _, (hassoc _).symm ▸ hentry, ?_, ?_, haccepts, hfile⟩
    · intro mid rest hsplit hmid hrest
      obtain ⟨first, mid, rfl⟩ := List.exists_cons_of_ne_nil hmid
      obtain ⟨rfl, rfl⟩ := List.cons.inj hsplit
      by_cases hnil : mid = []
      · rw [hnil]
        exact hdir
      · rw [hassoc]
        exact hreal mid rest rfl hnil hrest
    · intro mid rest hsplit hmid hrest
      obtain ⟨first, mid, rfl⟩ := List.exists_cons_of_ne_nil hmid
      obtain ⟨rfl, rfl⟩ := List.cons.inj hsplit
      by_cases hnil : mid = []
      · rw [hnil]
        exact hignored
      · exact hentered mid rest rfl hnil hrest

/-- What is found under a name in a directory within a depth. -/
theorem mem_scanChild_scanUpTo_iff
    (ih : ∀ {loc dir}, e ∈ disk.scanUpTo filter root fuel loc dir ↔
      ∃ below, below.length ≤ fuel ∧ disk.Finds filter root dir loc below e)
    (hn : disk.nodes.get? (loc ++ [name]) = some n) :
    e ∈ disk.scanChild filter root (disk.scanUpTo filter root fuel) loc dir (name, n) ↔
      ∃ below, below.length ≤ fuel ∧ disk.Finds filter root dir loc (name :: below) e := by
  rw [mem_scanChild_iff]
  constructor
  · rintro (⟨rfl, hignored, he⟩ | ⟨hne, haccepts, hlook⟩)
    · obtain ⟨below, hlength, hfinds⟩ := ih.mp he
      exact ⟨below, hlength, (finds_cons_iff hfinds.nonempty).mpr ⟨hn, hignored, hfinds⟩⟩
    · exact ⟨[], Nat.zero_le _, finds_singleton_iff.mpr ⟨n, hn, hne, haccepts, hlook⟩⟩
  · rintro ⟨below, hlength, hfinds⟩
    by_cases hbelow : below = []
    · rw [hbelow] at hfinds
      obtain ⟨n', hn', hne, haccepts, hlook⟩ := finds_singleton_iff.mp hfinds
      obtain rfl := Option.some.inj (hn.symm.trans hn')
      exact .inr ⟨hne, haccepts, hlook⟩
    · obtain ⟨hdir, hignored, hfinds⟩ := (finds_cons_iff hbelow).mp hfinds
      exact .inl ⟨Option.some.inj (hn.symm.trans hdir), hignored, ih.mpr ⟨below, hlength, hfinds⟩⟩

theorem mem_scanUpTo_iff : e ∈ disk.scanUpTo filter root fuel loc dir ↔
    ∃ below, below.length ≤ fuel ∧ disk.Finds filter root dir loc below e := by
  induction fuel generalizing loc dir with
  | zero =>
    constructor
    · intro he
      cases he
    · rintro ⟨below, hlength, hfinds⟩
      exact absurd (List.length_eq_zero_iff.mp (Nat.le_zero.mp hlength)) hfinds.nonempty
  | succ fuel ih =>
    rw [scanUpTo_succ, List.mem_flatMap]
    constructor
    · rintro ⟨⟨name, n⟩, hchild, he⟩
      obtain ⟨below, hlength, hfinds⟩ :=
        (mem_scanChild_scanUpTo_iff ih (mem_children_iff.mp hchild)).mp he
      exact ⟨name :: below, Nat.succ_le_succ hlength, hfinds⟩
    · rintro ⟨below, hlength, hfinds⟩
      obtain ⟨name, rest, rfl⟩ := List.exists_cons_of_ne_nil hfinds.nonempty
      have hchild : ∃ n, disk.nodes.get? (loc ++ [name]) = some n := by
        by_cases hrest : rest = []
        · rw [hrest] at hfinds
          obtain ⟨n, hn, -⟩ := hfinds.entry
          exact ⟨n, hn⟩
        · exact ⟨_, hfinds.real [name] rest rfl (List.cons_ne_nil _ _) hrest⟩
      obtain ⟨n, hn⟩ := hchild
      exact ⟨(name, n), mem_children_iff.mpr hn, (mem_scanChild_scanUpTo_iff ih hn).mpr
        ⟨rest, Nat.le_of_succ_le_succ hlength, hfinds⟩⟩

theorem scan_eq_scanUpTo (filter : Filter) (root : Path)
    (hdir : disk.find dir = .ok (loc, .directory)) :
    disk.scan filter root dir = disk.scanUpTo filter root (disk.height + 1) loc dir := by
  rw [scan, hdir]

/-- **A scan finds the accepted files that real directories lead to, none of them ignored.** -/
theorem mem_scan_iff (hdir : disk.find dir = .ok (loc, .directory)) :
    e ∈ disk.scan filter root dir ↔ ∃ below, disk.Finds filter root dir loc below e := by
  rw [scan_eq_scanUpTo filter root hdir, mem_scanUpTo_iff]
  refine exists_congr fun below => and_iff_right_of_imp fun hfinds => ?_
  obtain ⟨n, hn, -⟩ := hfinds.entry
  have hheight := length_le_height hn
  rw [List.length_append] at hheight
  omega

/-! ## 3. Nothing is found twice -/

/-- The names that lead to what is found can be read off its path. -/
theorem Finds.components (h : disk.Finds filter root dir loc below e) (hnamed : disk.IsNamed) :
    e.path.components = dir.components ++ below.map .name := by
  obtain ⟨n, hn, -⟩ := h.entry
  obtain ⟨loc', content, modified, -, rfl⟩ := h.file
  exact dir.components_under fun name hname => hnamed _ _ hn name (List.mem_append_right _ hname)

/-- **Nothing is found twice**, under whatever spelling. -/
theorem nodup_scan (hnamed : disk.IsNamed) (filter : Filter) (root dir : Path) :
    ((disk.scan filter root dir).map fun e => e.path.components).Nodup := by
  have hfuel : ∀ (fuel : Nat) (loc : Location) (dir : Path),
      ((disk.scanUpTo filter root fuel loc dir).map fun e => e.path.components).Nodup := by
    intro fuel
    induction fuel with
    | zero => exact fun _ _ => List.nodup_nil
    | succ fuel ih =>
      intro loc dir
      rw [scanUpTo_succ, List.map_flatMap, List.nodup_flatMap]
      constructor
      · rintro ⟨name, n⟩ -
        unfold scanChild
        cases n
        case directory =>
          dsimp only
          split
          · exact List.nodup_nil
          · exact ih _ _
        case file | link =>
          dsimp only
          split
          · split <;> simp
          · exact List.nodup_nil
      · -- what is found under different names has different paths
        refine (List.pairwise_map.mp (disk.nodup_children loc)).imp_of_mem ?_
        rintro ⟨name, n⟩ ⟨name', n'⟩ hchild hchild' hne k hk hk'
        obtain ⟨e, he, rfl⟩ := List.mem_map.mp hk
        obtain ⟨e', he', hsame⟩ := List.mem_map.mp hk'
        obtain ⟨below, -, hfinds⟩ :=
          (mem_scanChild_scanUpTo_iff mem_scanUpTo_iff (mem_children_iff.mp hchild)).mp he
        obtain ⟨below', -, hfinds'⟩ :=
          (mem_scanChild_scanUpTo_iff mem_scanUpTo_iff (mem_children_iff.mp hchild')).mp he'
        rw [hfinds.components hnamed, hfinds'.components hnamed] at hsame
        simp only [List.append_cancel_left_eq, List.map_cons, List.cons.injEq,
          Component.name.injEq] at hsame
        exact hne hsame.1.symm
  rw [scan]
  split
  · exact hfuel _ _ _
  · exact List.nodup_nil

end FileTree
end AnalysisRunner
