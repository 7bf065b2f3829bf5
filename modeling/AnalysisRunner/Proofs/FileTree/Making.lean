import AnalysisRunner.Proofs.FileTree.Replace
import AnalysisRunner.Proofs.Path.Parent

/-!
# Making directories

To make a directory, those above it are made first, one after the other, and each is put at a
name that was free (`exists_of_makeDirectory`).  What is kept by making one directory on the way
is therefore kept by all of them, and holds also where the making stops half way
(`forall_mem_made`).

A disk grows by making directories: whatever was there stays, and only directories are new
(`Grown`).  Still a path may lead somewhere else afterwards.  Where `a` is missing, `a/../b` leads
nowhere, and as soon as `a` is there it leads to `b`, which may be a file or a full directory.  This
cannot happen if only names, none of them too long, follow the first one that is missing
(`GoesStraight`): then the disk grows along one line, and below it everything is missing, before
and after (`read_of_mem_directoriesMade`).
-/

namespace AnalysisRunner

/-- Whether a path leads part of the way to another one. -/
structure Path.IsOnWayTo (q p : Path) : Prop where
  isAbsolute : q.isAbsolute = p.isAbsolute
  hops : q.hops <+: p.hops

theorem Path.isOnWayTo_self (p : Path) : p.IsOnWayTo p :=
  ⟨rfl, List.prefix_refl _⟩

theorem Path.IsOnWayTo.parent? {p q above : Path} (h : q.IsOnWayTo p)
    (habove : q.parent? = some above) :
    above.IsOnWayTo p :=
  ⟨(isAbsolute_of_parent? habove).trans h.isAbsolute, (hops_of_parent? habove).trans h.hops⟩

namespace FileTree

variable {t t' u v m : FileTree} {links : Nat} {cur loc : Location} {hs : List Hop} {p q dir : Path}
  {name : Bytes}

theorem start_of_isOnWayTo (h : q.IsOnWayTo p) (t : FileTree) : t.start q = t.start p := by
  rw [start, start, h.isAbsolute]

/-! ## 1. One directory -/

/-- A walk that ends at a free name goes through directories and links up to that name. -/
theorem exists_of_walk_vacant (h : t.walk false links cur hs = .ok (.vacant loc)) :
    ∃ before name r, hs = before ++ [.down name] ∧ t.descend links cur before = .ok r ∧
      name.length ≤ maxNameLength ∧ t.nodes.get? (r.2 ++ [name]) = none ∧ loc = r.2 ++ [name] := by
  rcases List.eq_nil_or_concat' hs with rfl | ⟨before, last, rfl⟩
  · rw [walk] at h
    cases h
  · rw [walk_append t false (List.cons_ne_nil _ _)] at h
    obtain ⟨r, hr, hlast⟩ := exists_of_bind_eq_ok h
    cases last with
    | up =>
      rw [walk, walk] at hlast
      cases hlast
    | down name =>
      rw [walk] at hlast
      split at hlast
      · cases hlast
      · rename_i hshort
        refine ⟨before, name, r, rfl, hr, Nat.not_lt.mp hshort, ?_⟩
        cases hnode : t.nodes.get? (r.2 ++ [name]) with
        | none =>
          simp only [hnode, List.isEmpty_nil, if_true] at hlast
          exact ⟨rfl, (Place.vacant.inj (Except.ok.inj hlast)).symm⟩
        | some n =>
          cases n with
          | directory =>
            simp only [hnode] at hlast
            rw [walk] at hlast
            cases hlast
          | file content modified => simp [hnode] at hlast
          | link target => simp [hnode] at hlast

/-- **A directory is made at a free name**, in the directory that the rest of the path leads to. -/
theorem exists_of_makeDirectory (h : t.makeDirectory p = .ok t') :
    ∃ before name r, p.hops = before ++ [.down name] ∧
      t.descend maxLinks (t.start p) before = .ok r ∧ name.length ≤ maxNameLength ∧
      t.nodes.get? (r.2 ++ [name]) = none ∧ t' = t.put (r.2 ++ [name]) .directory := by
  unfold makeDirectory at h
  split at h
  · split at h <;> cases h
  · split at h
    · cases h
    · split at h
      · cases h
      · split at h
        · cases h
        · rename_i hwalk
          obtain ⟨before, name, r, hhops, hway, hshort, hfree, rfl⟩ := exists_of_walk_vacant hwalk
          exact ⟨before, name, r, hhops, hway, hshort, hfree, (Except.ok.inj h).symm⟩
        · cases h

theorem IsTree.makeDirectory (h : t.IsTree) (hmake : t.makeDirectory p = .ok t') : t'.IsTree := by
  obtain ⟨before, name, r, -, hway, -, -, rfl⟩ := exists_of_makeDirectory hmake
  exact h.put (h.nodeAt?_of_descend (h.start p) hway) fun _ => rfl

theorem find_of_wayTo {r : Nat × Location} (hne : p.bytes.isEmpty = false)
    (hnul : p.bytes.contains 0 = false) (hway : t.wayTo p = .ok r) :
    t.find p = .ok (r.2, .directory) := by
  have hwalk := walk_of_descend hway
  rw [start] at hwalk
  rw [find, resolve, hne, if_neg Bool.false_ne_true, hnul, if_neg Bool.false_ne_true, Bool.true_or,
    hwalk]

theorem isDirectory_of_wayTo {r : Nat × Location} (hne : p.bytes.isEmpty = false)
    (hnul : p.bytes.contains 0 = false) (hway : t.wayTo p = .ok r) : t.isDirectory p = true := by
  rw [isDirectory, find_of_wayTo hne hnul hway]

theorem makeDirectory_of_wayTo {r : Nat × Location} (hne : p.bytes.isEmpty = false)
    (hnul : p.bytes.contains 0 = false) (hway : t.wayTo p = .ok r) :
    t.makeDirectory p = .error .alreadyExists := by
  unfold makeDirectory
  split
  · rw [find_of_wayTo hne hnul hway]
  · obtain ⟨loc, n, hwalk⟩ := exists_node_of_descend hway false
    rw [start] at hwalk
    rw [hne, if_neg Bool.false_ne_true, hnul, if_neg Bool.false_ne_true, hwalk]

/-! ## 2. A directory and those above it -/

theorem makeDirectoriesUpTo_of_missing {fuel : Nat} {above : Path} {made : List FileTree}
    {fault : DiskFault} (hne : p.bytes.isEmpty = false)
    (hmissing : t.makeDirectory p = .error .notFound) (hparent : p.parent? = some above)
    (hmade : makeDirectoriesUpTo fuel t above = (made, none))
    (hlast : (made.getLastD t).makeDirectory p = .error fault) :
    makeDirectoriesUpTo (fuel + 1) t p =
      (made, if (made.getLastD t).isDirectory p then none else some fault) := by
  rw [makeDirectoriesUpTo, hne, if_neg Bool.false_ne_true, hmissing, hparent]
  simp only [hmade, hlast]

/-- **What is kept by making one directory on the way to `dir` holds of every disk that is
passed.** -/
theorem forall_mem_made {P : FileTree → Prop}
    (hstep : ∀ {u v : FileTree} {q : Path}, q.IsOnWayTo dir → P u → u.makeDirectory q = .ok v → P v)
    (fuel : Nat) (t : FileTree) (p : Path) (hp : p.IsOnWayTo dir) (ht : P t) :
    ∀ m ∈ (makeDirectoriesUpTo fuel t p).1, P m := by
  fun_induction makeDirectoriesUpTo fuel t p with
  | case1 => simp
  | case2 => simp
  | case3 fuel t p hne t₁ hmade => simpa using hstep hp ht hmade
  | case4 => simp
  | case5 fuel t p hne hmissing above habove made fault hmade ih =>
    rw [hmade] at ih
    exact ih (hp.parent? habove) ht
  | case6 fuel t p hne hmissing above habove made hmade last t₁ hlast ih =>
    rw [hmade] at ih
    have hall := ih (hp.parent? habove) ht
    have hP : P last := by
      have hmem : last ∈ t :: made := List.getLastD_mem_cons
      rcases List.mem_cons.mp hmem with hsame | hmem
      · exact hsame ▸ ht
      · exact hall last hmem
    intro m hm
    rcases List.mem_append.mp hm with hm | hm
    · exact hall m hm
    · rw [List.mem_singleton.mp hm]
      exact hstep hp hP hlast
  | case7 fuel t p hne hmissing above habove made hmade last fault hlast ih =>
    rw [hmade] at ih
    exact ih (hp.parent? habove) ht
  | case8 => simp

theorem forall_mem_directoriesMade {P : FileTree → Prop}
    (hstep : ∀ {u v : FileTree} {q : Path}, q.IsOnWayTo dir → P u → u.makeDirectory q = .ok v → P v)
    (ht : P t) : ∀ m ∈ t.directoriesMade dir, P m :=
  forall_mem_made hstep _ t dir dir.isOnWayTo_self ht

/-- The disk on which a directory was made is the last one that was passed. -/
theorem mem_of_makeDirectories (h : t.makeDirectories dir = .ok t') :
    t' = t ∨ t' ∈ t.directoriesMade dir := by
  rw [makeDirectories] at h
  split at h
  · rename_i made hmade
    rw [directoriesMade, hmade, ← Except.ok.inj h]
    exact List.mem_cons.mp List.getLastD_mem_cons
  · cases h

theorem IsTree.makeDirectories (h : t.IsTree) (hmake : t.makeDirectories dir = .ok t') :
    t'.IsTree := by
  rcases mem_of_makeDirectories hmake with rfl | hmem
  · exact h
  · exact forall_mem_directoriesMade (fun _ hu hmade => hu.makeDirectory hmade) h t' hmem

/-- Nothing is made where a directory already is. -/
theorem makeDirectories_of_wayTo {r : Nat × Location} (hnul : p.bytes.contains 0 = false)
    (hway : t.wayTo p = .ok r) : t.makeDirectories p = .ok t := by
  rw [FileTree.makeDirectories, makeDirectoriesUpTo]
  cases hne : p.bytes.isEmpty with
  | true => rfl
  | false =>
    rw [if_neg Bool.false_ne_true, makeDirectory_of_wayTo hne hnul hway,
      isDirectory_of_wayTo hne hnul hway]
    rfl

/-! ## 3. What is new -/

/-- Whether a disk has come from another one by making directories. -/
structure Grown (t m : FileTree) : Prop where
  base : m.base = t.base
  kept : ∀ {l n}, t.nodes.get? l = some n → m.nodes.get? l = some n
  fresh : ∀ {l n}, t.nodes.get? l = none → m.nodes.get? l = some n → n = .directory

theorem grown_self (t : FileTree) : t.Grown t where
  base := rfl
  kept := id
  fresh := by
    intro l n hnone hsome
    rw [hnone] at hsome
    cases hsome

theorem Grown.makeDirectory (h : t.Grown u) (hmake : u.makeDirectory q = .ok v) : t.Grown v := by
  obtain ⟨before, name, r, -, -, -, hfree, rfl⟩ := exists_of_makeDirectory hmake
  refine ⟨h.base, ?_, ?_⟩
  · intro l n hn
    have hl : l ≠ r.2 ++ [name] := by
      rintro rfl
      rw [h.kept hn] at hfree
      cases hfree
    rw [get?_put, if_neg hl]
    exact h.kept hn
  · intro l n hnone hn
    rw [get?_put] at hn
    split at hn
    · exact (Option.some.inj hn).symm
    · exact h.fresh hnone hn

theorem Grown.start (h : t.Grown m) (p : Path) : m.start p = t.start p := by
  rw [FileTree.start, FileTree.start, h.base]

theorem Grown.descend {r : Nat × Location} (h : t.Grown m) (hway : t.descend links cur hs = .ok r) :
    m.descend links cur hs = .ok r :=
  descend_mono (fun hn _ => h.kept hn) hway

theorem grown_of_mem_directoriesMade : ∀ m ∈ t.directoriesMade dir, t.Grown m :=
  forall_mem_directoriesMade (fun _ hu hmade => hu.makeDirectory hmade) t.grown_self

/-! ## 4. Straight ways -/

/-- A way down through names below which there are only directories ends at the last name or at
one that is missing. -/
theorem descend_names {names : List Bytes} (hshort : ∀ n ∈ name :: names, n.length ≤ maxNameLength)
    (hdirs : ∀ below n, t.nodes.get? (cur ++ name :: below) = some n → n = .directory) :
    t.descend links cur ((name :: names).map .down) = .error .notFound ∨
      t.descend links cur ((name :: names).map .down) = .ok (links, cur ++ name :: names) := by
  induction names generalizing cur name with
  | nil =>
    rw [List.map_singleton, FileTree.descend,
      if_neg (Nat.not_lt.mpr (hshort name List.mem_cons_self))]
    cases hnode : t.nodes.get? (cur ++ [name]) with
    | none => exact .inl rfl
    | some n =>
      rw [hdirs [] n hnode]
      right
      rw [FileTree.descend]
  | cons next names ih =>
    rw [List.map_cons, FileTree.descend,
      if_neg (Nat.not_lt.mpr (hshort name List.mem_cons_self))]
    cases hnode : t.nodes.get? (cur ++ [name]) with
    | none => exact .inl rfl
    | some n =>
      rw [hdirs [] n hnode]
      have hbelow : ∀ below n, t.nodes.get? ((cur ++ [name]) ++ next :: below) = some n →
          n = .directory := by
        intro below n hn
        rw [List.append_assoc] at hn
        exact hdirs (next :: below) n hn
      have hnext := ih (fun n hn => hshort n (List.mem_cons_of_mem name hn)) hbelow
      rwa [List.append_assoc] at hnext

/-- Whether only names, none of them too long, follow the first name that is missing on the way
to a directory. -/
def GoesStraight (t : FileTree) (dir : Path) : Prop :=
  ∀ before name after r, dir.hops = before ++ .down name :: after →
    t.descend maxLinks (t.start dir) before = .ok r → t.nodes.get? (r.2 ++ [name]) = none →
    ∃ names : List Bytes, after = names.map .down ∧ ∀ n ∈ names, n.length ≤ maxNameLength

/-- No way leads through a name that is missing. -/
theorem descend_ne_ok_of_free {before after : List Hop} {r r' : Nat × Location}
    (hbefore : t.descend links cur before = .ok r) (hfree : t.nodes.get? (r.2 ++ [name]) = none) :
    t.descend links cur (before ++ .down name :: after) ≠ .ok r' := by
  intro hway
  rw [descend_append, hbefore] at hway
  have hmissing : t.descend r.1 r.2 (.down name :: after) = .ok r' := hway
  rw [FileTree.descend, hfree] at hmissing
  split at hmissing <;> cases hmissing

/-- A path without two dots, and without names that are too long, goes straight everywhere. -/
theorem goesStraight_of_hops {names : List Bytes} (hhops : dir.hops = names.map .down)
    (hshort : ∀ n ∈ names, n.length ≤ maxNameLength) (t : FileTree) : t.GoesStraight dir := by
  intro before name after r hsplit _ _
  rw [hhops] at hsplit
  obtain ⟨front, back, rfl, -, hback⟩ := List.map_eq_append_iff.mp hsplit
  obtain ⟨first, rest, rfl, -, hrest⟩ := List.map_eq_cons_iff.mp hback
  exact ⟨rest, hrest.symm, fun n hn => hshort n (by simp [hn])⟩

section Straight

variable {before : List Hop} {r : Nat × Location} {names : List Bytes} (htree : t.IsTree)
  (hhops : dir.hops = before ++ .down name :: names.map .down)
  (hway : t.descend maxLinks (t.start dir) before = .ok r)
  (hfree : t.nodes.get? (r.2 ++ [name]) = none)

/-- Whether a disk has come from another one by making directories along the line that ends at a
location. -/
structure GrownTo (t m : FileTree) (loc : Location) : Prop extends t.Grown m where
  along : ∀ {l}, t.nodes.get? l = none → m.nodes.get? l ≠ none → l <+: loc

include htree hfree

/-- Below a name that is missing everything is missing. -/
theorem get?_below (below : List Bytes) : t.nodes.get? (r.2 ++ name :: below) = none := by
  cases hnode : t.nodes.get? (r.2 ++ name :: below) with
  | none => rfl
  | some n =>
    cases below with
    | nil => rw [← hnode, hfree]
    | cons next below =>
      rw [← List.singleton_append, ← List.append_assoc] at hnode
      have habove := htree.above (next :: below) (List.cons_ne_nil _ _) hnode
      rw [nodeAt?_concat, hfree] at habove
      cases habove

/-- On a disk that has grown, there are only directories below a name that was missing. -/
theorem Grown.directory_below (h : t.Grown m) (below : List Bytes) (n : Node)
    (hn : m.nodes.get? (r.2 ++ name :: below) = some n) : n = .directory :=
  h.fresh (get?_below htree hfree below) hn

include hway

/-- On a disk that has grown, the way to the first missing name goes on along the names that
follow it. -/
theorem Grown.descend_line (h : t.Grown m) (hshort : ∀ n ∈ name :: names, n.length ≤ maxNameLength)
    {line : List Bytes} (hline : line <+: name :: names) {r' : Nat × Location}
    (hfront : m.descend maxLinks (t.start dir) (before ++ line.map .down) = .ok r') :
    r'.2 = r.2 ++ line := by
  rw [descend_append, h.descend hway] at hfront
  have hrest : m.descend r.1 r.2 (line.map .down) = .ok r' := hfront
  cases line with
  | nil =>
    rw [List.map_nil, FileTree.descend] at hrest
    rw [← Except.ok.inj hrest, List.append_nil]
  | cons first line =>
    have hshort' : ∀ n ∈ first :: line, n.length ≤ maxNameLength := fun n hn =>
      hshort n (hline.subset hn)
    obtain ⟨rfl, -⟩ := List.cons_prefix_cons.mp hline
    rcases descend_names hshort' (h.directory_below htree hfree) with hmissing | hfound
    · rw [hmissing] at hrest
      cases hrest
    · rw [hfound] at hrest
      rw [← Except.ok.inj hrest]

include hhops

/-- The disk goes on growing along the line to the directory. -/
theorem GrownTo.makeDirectory (hshort : ∀ n ∈ name :: names, n.length ≤ maxNameLength)
    (h : t.GrownTo u (r.2 ++ name :: names)) (hq : q.IsOnWayTo dir)
    (hmake : u.makeDirectory q = .ok v) : t.GrownTo v (r.2 ++ name :: names) := by
  refine ⟨h.toGrown.makeDirectory hmake, ?_⟩
  obtain ⟨front, last, r', hqhops, hfront, -, hlast, rfl⟩ := exists_of_makeDirectory hmake
  rw [start_of_isOnWayTo hq, h.toGrown.start] at hfront
  have hline : ∀ line, front = before ++ line.map .down → line ++ [last] <+: name :: names →
      r'.2 ++ [last] <+: r.2 ++ name :: names := by
    rintro line rfl hprefix
    have hshorter : line <+: name :: names := (List.prefix_append line [last]).trans hprefix
    rw [h.toGrown.descend_line htree hway hfree hshort hshorter hfront, List.append_assoc]
    exact (List.prefix_append_right_inj r.2).mpr hprefix
  intro l hnone hl
  rw [get?_put] at hl
  split at hl
  swap
  · exact h.along hnone hl
  rename_i hplace
  rw [hplace]
  obtain ⟨rest, hrest⟩ := hq.hops
  rw [hqhops, hhops, List.append_assoc, List.singleton_append] at hrest
  rcases List.append_eq_append_iff.mp hrest with ⟨bs, rfl, hbs⟩ | ⟨bs, rfl, hbs⟩
  · cases bs with
    | nil =>
      obtain ⟨hsame, -⟩ := List.cons.inj hbs
      refine hline [] (by simp) ⟨names, ?_⟩
      rw [Hop.down.inj hsame]
      rfl
    | cons b bs =>
      -- what is on the way to the first missing name is there
      obtain ⟨rfl, rfl⟩ := List.cons.inj hbs
      exact absurd (h.toGrown.descend hway) (descend_ne_ok_of_free hfront hlast)
  · have hmap : (name :: names).map Hop.down = bs ++ .down last :: rest := hbs
    obtain ⟨line, back, hnames, rfl, hback⟩ := List.map_eq_append_iff.mp hmap
    obtain ⟨last', back, rfl, hlast', -⟩ := List.map_eq_cons_iff.mp hback
    obtain rfl := Hop.down.inj hlast'
    exact hline line rfl ⟨back, by simp [hnames]⟩

/-- While the disk grows along the line to the directory, nothing is found in the directory. -/
theorem GrownTo.read_join (hshort : ∀ n ∈ name :: names, n.length ≤ maxNameLength)
    (h : t.GrownTo m (r.2 ++ name :: names)) {file : Bytes} (hfile : file.IsFileName)
    (hnul : dir.bytes.contains 0 = false) : m.read (dir.join ⟨file⟩) = .error .notFound := by
  have hplace : m.nodes.get? (r.2 ++ name :: names ++ [file]) = none := by
    by_contra hne
    rw [List.append_assoc] at hne
    have hle := (h.along (get?_below htree hfree (names ++ [file])) hne).length_le
    rw [List.length_append, List.length_append, List.length_cons, List.length_cons,
      List.length_append, List.length_singleton] at hle
    omega
  have hwayTo : m.wayTo dir = m.descend r.1 r.2 ((name :: names).map .down) := by
    rw [wayTo, h.toGrown.start, hhops, descend_append, h.toGrown.descend hway]
    rfl
  rcases descend_names hshort (h.toGrown.directory_below htree hfree) with hmissing | hfound
  · exact read_of_wayTo_error hfile hnul (hwayTo.trans hmissing)
  · have hplain : m.IsPlainName dir file := by
      intro r' target hr'
      rw [← Except.ok.inj ((hwayTo.trans hfound).symm.trans hr'), hplace]
      simp
    rw [read, find, resolve_join_of_plain true hfile hplain hnul (hwayTo.trans hfound), hplace]
    rfl

end Straight

/-- **On a straight way the files of a directory are read as before while the directories above
them are made**, and also where that is refused half way. -/
theorem read_of_mem_directoriesMade (htree : t.IsTree) (hdir : t.GoesStraight dir)
    (hname : name.IsFileName) (m : FileTree) (hm : m ∈ t.directoriesMade dir) :
    m.read (dir.join ⟨name⟩) = t.read (dir.join ⟨name⟩) := by
  by_cases hmissing : ∃ before first after r, dir.hops = before ++ .down first :: after ∧
      t.descend maxLinks (t.start dir) before = .ok r ∧ t.nodes.get? (r.2 ++ [first]) = none ∧
      first.length ≤ maxNameLength
  · obtain ⟨before, first, after, r, hhops, hway, hfree, hfirst⟩ := hmissing
    obtain ⟨names, rfl, hnames⟩ := hdir before first after r hhops hway hfree
    have hshort : ∀ n ∈ first :: names, n.length ≤ maxNameLength := by
      intro n hn
      rcases List.mem_cons.mp hn with rfl | hn
      · exact hfirst
      · exact hnames n hn
    have hself : t.GrownTo t (r.2 ++ first :: names) :=
      ⟨t.grown_self, fun hnone hne => absurd hnone hne⟩
    have hgrown : t.GrownTo m (r.2 ++ first :: names) :=
      forall_mem_directoriesMade (P := fun u => t.GrownTo u (r.2 ++ first :: names))
        (fun hq hu hmade => hu.makeDirectory htree hhops hway hfree hshort hq hmade) hself m hm
    cases hnul : dir.bytes.contains 0 with
    | true =>
      rw [read, read, find, find, resolve_join m true dir hname,
        resolve_join t true dir hname, hnul]
      rfl
    | false =>
      rw [hgrown.read_join htree hhops hway hfree hshort hname hnul,
        hself.read_join htree hhops hway hfree hshort hname hnul]
  · -- nothing can be made
    have hsame : m = t := by
      refine forall_mem_directoriesMade (P := fun u => u = t) ?_ rfl m hm
      rintro u v q hq rfl hmade
      obtain ⟨before, first, r, hqhops, hway, hshort, hfree, -⟩ := exists_of_makeDirectory hmade
      obtain ⟨rest, hrest⟩ := hq.hops
      rw [start_of_isOnWayTo hq] at hway
      rw [hqhops, List.append_assoc, List.singleton_append] at hrest
      exact absurd ⟨before, first, rest, r, hrest.symm, hway, hfree, hshort⟩ hmissing
    rw [hsame]

end FileTree
end AnalysisRunner
