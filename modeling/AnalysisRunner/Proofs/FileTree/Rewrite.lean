import AnalysisRunner.Proofs.FileTree.Replace

/-!
# Replacing a file through links

A draft may be a link.  Then what is written goes where the link leads, and it is the link that
is moved into place.  Links may lead to links, and through names that are moved themselves, so
one can no longer say which locations change.  One can still say what is found afterwards.

`Arrives` is where moves arrive, as a relation: a walk that has no limits.  A walk that succeeds
arrives (`arrives_of_walk`), and moves arrive at one place at most (`Arrives.unique`).  Changes of
a disk are then read backwards, by induction on a way through the new disk.  Where the way meets
what has changed it ends at what was written, or it goes on as a way through the old disk did
(`Arrives.of_put`, `Arrives.of_move`).  So the name that was replaced leads to the new content, if
it leads to a file, and no other name has come to lead to anything but that content
(`rewritten_of_run`).
-/

namespace AnalysisRunner

namespace Place

/-- The location of a place. -/
def location : Place → Location
  | .node loc _ => loc
  | .vacant loc => loc

/-- Whether a place is free or holds a file, and then one whose content satisfies a condition. -/
def Admits (P : Bytes → Prop) : Place → Prop
  | .vacant _ => True
  | .node _ (.file content _) => P content
  | .node _ _ => False

end Place

namespace FileTree

/-- Where moves from a directory arrive if all links are followed, however many there are. -/
inductive Arrives (t : FileTree) : Location → List Hop → Place → Prop
  | here (cur : Location) : Arrives t cur [] (.node cur .directory)
  | up {cur : Location} {rest : List Hop} {place : Place} (h : Arrives t cur.dropLast rest place) :
      Arrives t cur (.up :: rest) place
  | vacant {cur : Location} {name : Bytes} (hnode : t.nodes.get? (cur ++ [name]) = none) :
      Arrives t cur [.down name] (.vacant (cur ++ [name]))
  | file {cur : Location} {name content : Bytes} {modified : Nat}
      (hnode : t.nodes.get? (cur ++ [name]) = some (.file content modified)) :
      Arrives t cur [.down name] (.node (cur ++ [name]) (.file content modified))
  | directory {cur : Location} {name : Bytes} {rest : List Hop} {place : Place}
      (hnode : t.nodes.get? (cur ++ [name]) = some .directory)
      (h : Arrives t (cur ++ [name]) rest place) : Arrives t cur (.down name :: rest) place
  | link {cur : Location} {name : Bytes} {rest : List Hop} {place : Place} {target : Path}
      (hnode : t.nodes.get? (cur ++ [name]) = some (.link target))
      (h : Arrives t (if target.isAbsolute then [] else cur) (target.hops ++ rest) place) :
      Arrives t cur (.down name :: rest) place

/-- Whether a name in a directory leads to nothing but files whose content satisfies a
condition. -/
def HoldsOnly (t : FileTree) (dir : Location) (name : Bytes) (P : Bytes → Prop) : Prop :=
  ∀ place, t.Arrives dir [.down name] place → place.Admits P

variable {t u : FileTree} {links : Nat} {cur loc : Location} {hs rest : List Hop}
  {place other : Place}
  {dir : Path} {name draft content : Bytes} {now : Nat} {n : Node} {P : Bytes → Prop}

/-! ## 1. Ways -/

theorem arrives_of_walk (h : t.walk true links cur hs = .ok place) : t.Arrives cur hs place := by
  fun_induction walk t true links cur hs with
  | case1 links cur =>
    obtain rfl := Except.ok.inj h
    exact .here cur
  | case2 links cur rest ih => exact .up (ih h)
  | case3 => cases h
  | case4 links cur name rest hshort loc hnode hempty =>
    obtain rfl := Except.ok.inj h
    obtain rfl := List.isEmpty_iff.mp hempty
    exact .vacant hnode
  | case5 => cases h
  | case6 links cur name rest hshort loc hnode ih => exact .directory hnode (ih h)
  | case7 links cur name rest hshort loc content modified hnode hempty =>
    obtain rfl := Except.ok.inj h
    obtain rfl := List.isEmpty_iff.mp hempty
    exact .file hnode
  | case8 => cases h
  | case9 links cur name rest hshort loc target hnode hlast => simp at hlast
  | case10 => cases h
  | case11 cur name rest hshort loc target hnode hlast links ih =>
    exact .link hnode (ih (Path.eq_ok_of_allow h))

theorem arrives_of_wayTo {r : Nat × Location} (h : t.wayTo dir = .ok r) :
    t.Arrives (t.start dir) dir.hops (.node r.2 .directory) :=
  arrives_of_walk (walk_of_descend h)

namespace Arrives

/-- **Moves arrive at one place at most.** -/
theorem unique (h : t.Arrives cur hs place) (h' : t.Arrives cur hs other) : place = other := by
  induction h with
  | here cur =>
    cases h'
    rfl
  | up _ ih =>
    cases h' with
    | up h' => exact ih h'
  | vacant hnode =>
    cases h' with
    | vacant _ => rfl
    | file hnode' => cases hnode.symm.trans hnode'
    | directory hnode' _ => cases hnode.symm.trans hnode'
    | link hnode' _ => cases hnode.symm.trans hnode'
  | file hnode =>
    cases h' with
    | vacant hnode' => cases hnode.symm.trans hnode'
    | file hnode' =>
      cases hnode.symm.trans hnode'
      rfl
    | directory hnode' _ => cases hnode.symm.trans hnode'
    | link hnode' _ => cases hnode.symm.trans hnode'
  | directory hnode _ ih =>
    cases h' with
    | vacant hnode' => cases hnode.symm.trans hnode'
    | file hnode' => cases hnode.symm.trans hnode'
    | directory _ h' => exact ih h'
    | link hnode' _ => cases hnode.symm.trans hnode'
  | link hnode _ ih =>
    cases h' with
    | vacant hnode' => cases hnode.symm.trans hnode'
    | file hnode' => cases hnode.symm.trans hnode'
    | directory hnode' _ => cases hnode.symm.trans hnode'
    | link hnode' h' =>
      cases hnode.symm.trans hnode'
      exact ih h'

theorem ne_link (h : t.Arrives cur hs place) (loc : Location) (target : Path) :
    place ≠ .node loc (.link target) := by
  induction h with
  | here cur => simp
  | up _ ih => exact ih
  | vacant _ => simp
  | file _ => simp
  | directory _ _ ih => exact ih
  | link _ _ ih => exact ih

/-- What is not the end of a way is a directory. -/
theorem through (h : t.Arrives cur (hs ++ rest) place) (hrest : rest ≠ []) :
    ∃ mid, t.Arrives cur hs (.node mid .directory) := by
  generalize hmoves : hs ++ rest = moves at h
  induction h generalizing hs with
  | here cur => exact absurd (List.append_eq_nil_iff.mp hmoves).2 hrest
  | @up cur _ _ _ ih =>
    cases hs with
    | nil => exact ⟨cur, .here cur⟩
    | cons first hs =>
      obtain ⟨rfl, hleft⟩ := List.cons.inj hmoves
      obtain ⟨mid, hmid⟩ := ih hleft
      exact ⟨mid, .up hmid⟩
  | @vacant cur _ _ =>
    cases hs with
    | nil => exact ⟨cur, .here cur⟩
    | cons first hs => exact absurd (List.append_eq_nil_iff.mp (List.cons.inj hmoves).2).2 hrest
  | @file cur _ _ _ _ =>
    cases hs with
    | nil => exact ⟨cur, .here cur⟩
    | cons first hs => exact absurd (List.append_eq_nil_iff.mp (List.cons.inj hmoves).2).2 hrest
  | @directory cur _ _ _ hnode _ ih =>
    cases hs with
    | nil => exact ⟨cur, .here cur⟩
    | cons first hs =>
      obtain ⟨rfl, hleft⟩ := List.cons.inj hmoves
      obtain ⟨mid, hmid⟩ := ih hleft
      exact ⟨mid, .directory hnode hmid⟩
  | @link cur _ _ _ _ hnode _ ih =>
    cases hs with
    | nil => exact ⟨cur, .here cur⟩
    | cons first hs =>
      obtain ⟨rfl, rfl⟩ := List.cons.inj hmoves
      obtain ⟨mid, hmid⟩ := ih (List.append_assoc ..)
      exact ⟨mid, .link hnode hmid⟩

/-! ## 2. Files that are put and nodes that are moved -/

/-- **A way on a disk with one more file ends there or is an old one**, and an old one does not
end at the location of the file. -/
theorem of_put (h : (t.put loc (.file content now)).Arrives cur hs place) :
    place = .node loc (.file content now) ∨
      t.Arrives cur hs place ∧ (place.Admits (fun _ => True) → place.location ≠ loc) := by
  induction h with
  | here cur => exact .inr ⟨.here cur, False.elim⟩
  | up _ ih => exact ih.imp_right fun hold => ⟨.up hold.1, hold.2⟩
  | vacant hnode =>
    rw [get?_put] at hnode
    split at hnode
    · cases hnode
    · rename_i hne
      exact .inr ⟨.vacant hnode, fun _ => hne⟩
  | file hnode =>
    rw [get?_put] at hnode
    split at hnode
    · rename_i hsame
      rw [← Option.some.inj hnode, hsame]
      exact .inl rfl
    · rename_i hne
      exact .inr ⟨.file hnode, fun _ => hne⟩
  | directory hnode _ ih =>
    rw [get?_put] at hnode
    split at hnode
    · cases hnode
    · exact ih.imp_right fun hold => ⟨.directory hnode hold.1, hold.2⟩
  | link hnode _ ih =>
    rw [get?_put] at hnode
    split at hnode
    · cases hnode
    · exact ih.imp_right fun hold => ⟨.link hnode hold.1, hold.2⟩

section Move

variable (hdraft : t.nodes.get? (loc ++ [draft]) = some n) (honly : t.HoldsOnly loc draft P)
  (hget : ∀ l, u.nodes.get? l = if l = loc ++ [name] then some n
    else if l = loc ++ [draft] then none else t.nodes.get? l)

include hdraft honly hget

/-- **A way on a disk on which a name was changed ends where the old name led, or it is an old one
and does not begin with the new name.**  Nothing could go on from the old name, so nothing goes on
from the new one. -/
theorem of_move (h : u.Arrives cur hs place) :
    place.Admits P ∨ t.Arrives cur hs place ∧ (cur = loc → hs.head? ≠ some (.down name)) := by
  have hother : ∀ {cur : Location} {last : Bytes}, cur ++ [last] ≠ loc ++ [name] →
      ∀ {hs : List Hop}, cur = loc → (Hop.down last :: hs).head? ≠ some (.down name) := by
    rintro cur last hne hs rfl hhead
    cases hhead
    exact hne rfl
  induction h with
  | here cur => exact .inr ⟨.here cur, by simp⟩
  | up _ ih => exact ih.imp_right fun hold => ⟨.up hold.1, by simp⟩
  | vacant _ => exact .inl trivial
  | file hnode =>
    rw [hget] at hnode
    split at hnode
    · cases hnode
      have hcontent := honly _ (.file hdraft)
      exact .inl hcontent
    · rename_i hne
      split at hnode
      · cases hnode
      · exact .inr ⟨.file hnode, hother hne⟩
  | directory hnode _ ih =>
    rw [hget] at hnode
    split at hnode
    · cases hnode
      exact (honly _ (.directory hdraft (.here _))).elim
    · rename_i hne
      split at hnode
      · cases hnode
      · exact ih.imp_right fun hold => ⟨.directory hnode hold.1, hother hne⟩
  | @link cur last rest place target hnode _ ih =>
    rw [hget] at hnode
    split at hnode
    · rename_i hsame
      cases hnode
      obtain rfl : cur = loc := List.append_inj_left' hsame rfl
      refine .inl (ih.elim id fun hold => ?_)
      -- the way from the new name is one from the old name
      have hway : t.Arrives cur ([.down draft] ++ rest) place := .link hdraft hold.1
      cases rest with
      | nil => exact honly _ hway
      | cons next rest =>
        obtain ⟨mid, hmid⟩ := hway.through (List.cons_ne_nil _ _)
        exact (honly _ hmid).elim
    · rename_i hne
      split at hnode
      · cases hnode
      · exact ih.imp_right fun hold => ⟨.link hnode hold.1, hother hne⟩

end Move

end Arrives

/-- What is written through a name is found there. -/
theorem holdsOnly_put (h : t.Arrives loc [.down name] place) (hfree : place.Admits fun _ => True)
    (content : Bytes) (now : Nat) :
    (t.put place.location (.file content now)).HoldsOnly loc name (· = content) := by
  intro found hfound
  rcases hfound.of_put with rfl | ⟨hold, hne⟩
  · exact rfl
  · obtain rfl := hold.unique h
    exact absurd rfl (hne hfree)

/-! ## 3. Drafts -/

theorem exists_of_resolve_join {follow : Bool} (hname : name.IsFileName)
    (h : t.resolve follow (dir.join ⟨name⟩) = .ok place) :
    ∃ r, t.wayTo dir = .ok r ∧ t.walk follow r.1 r.2 [.down name] = .ok place := by
  rw [resolve_join t follow dir hname] at h
  split at h
  · cases h
  · exact exists_of_bind_eq_ok h

/-- **A file is written where its name leads**, which is a file or a free place. -/
theorem exists_place_of_write (hname : name.IsFileName)
    (h : t.write (dir.join ⟨name⟩) content now = .ok u) :
    ∃ r place, t.wayTo dir = .ok r ∧ t.walk true r.1 r.2 [.down name] = .ok place ∧
      place.Admits (fun _ => True) ∧ u = t.put place.location (.file content now) := by
  rw [write, Path.isDirectoryOnly_join dir hname.inner] at h
  obtain ⟨place, hplace, hput⟩ := exists_of_bind_eq_ok h
  obtain ⟨r, hway, hwalk⟩ := exists_of_resolve_join hname hplace
  refine ⟨r, place, hway, hwalk, ?_⟩
  cases place with
  | vacant loc => exact ⟨trivial, (Except.ok.inj hput).symm⟩
  | node loc n =>
    cases n with
    | directory => cases hput
    | file content' modified => exact ⟨trivial, (Except.ok.inj hput).symm⟩
    | link target => exact absurd rfl ((arrives_of_walk hwalk).ne_link loc target)

theorem IsTree.put_place (h : t.IsTree) {r : Nat × Location} (hway : t.wayTo dir = .ok r)
    (hwalk : t.walk true r.1 r.2 [.down name] = .ok place) (hfree : place.Admits fun _ => True)
    (content : Bytes) (now : Nat) : (t.put place.location (.file content now)).IsTree := by
  rcases h.place_of_walk (h.nodeAt?_of_wayTo hway) hwalk with
    ⟨loc, n, rfl, hnode, -⟩ | ⟨loc, name, rfl, hdir, hvacant⟩
  · rcases List.eq_nil_or_concat' loc with rfl | ⟨above, name, rfl⟩
    · cases hnode
      exact hfree.elim
    · rw [nodeAt?_concat] at hnode
      refine h.put (h.parent hnode) fun hdir => ?_
      cases hnode.symm.trans hdir
      exact hfree.elim
  · refine h.put hdir fun hdir => ?_
    cases hvacant.symm.trans hdir

/-- A name leads to itself if a link at the end is not followed. -/
theorem exists_of_resolve_unfollowed (hname : name.IsFileName)
    (h : t.resolve false (dir.join ⟨name⟩) = .ok place) :
    ∃ r, t.wayTo dir = .ok r ∧
      place = (t.nodes.get? (r.2 ++ [name])).elim (.vacant (r.2 ++ [name]))
        (.node (r.2 ++ [name])) := by
  obtain ⟨r, hway, hwalk⟩ := exists_of_resolve_join hname h
  refine ⟨r, hway, (Except.ok.inj (hwalk.symm.trans ?_))⟩
  rw [walk, if_neg (Nat.not_lt.mpr hname.short)]
  cases hnode : t.nodes.get? (r.2 ++ [name]) with
  | none => simp [hnode]
  | some n =>
    cases n with
    | directory => simp [hnode, walk]
    | file content modified => simp [hnode]
    | link target => simp [hnode]

/-- **What is no directory gets another name in the same directory**, and what had that name gives
way, if it is no directory either. -/
theorem exists_of_rename (htree : t.IsTree) (hdraft : draft.IsFileName) (hname : name.IsFileName)
    (hne : draft ≠ name)
    (hfile : ∀ r, t.wayTo dir = .ok r → t.nodes.get? (r.2 ++ [draft]) ≠ some .directory)
    (h : t.rename (dir.join ⟨draft⟩) (dir.join ⟨name⟩) = .ok u) :
    ∃ r n, t.wayTo dir = .ok r ∧ t.nodes.get? (r.2 ++ [draft]) = some n ∧
      t.nodes.get? (r.2 ++ [name]) ≠ some .directory ∧ u.base = t.base ∧
      ∀ l, u.nodes.get? l = if l = r.2 ++ [name] then some n
        else if l = r.2 ++ [draft] then none else t.nodes.get? l := by
  obtain ⟨place, hplace, h⟩ := exists_of_bind_eq_ok h
  obtain ⟨r, hway, rfl⟩ := exists_of_resolve_unfollowed hdraft hplace
  obtain ⟨n, hn⟩ : ∃ n, t.nodes.get? (r.2 ++ [draft]) = some n := by
    cases hnode : t.nodes.get? (r.2 ++ [draft]) with
    | none =>
      rw [hnode] at h
      cases h
    | some n => exact ⟨n, rfl⟩
  rw [hn] at h
  obtain ⟨origin, horigin, h⟩ := exists_of_bind_eq_ok h
  obtain rfl := Except.ok.inj horigin
  obtain ⟨place', hplace', h⟩ := exists_of_bind_eq_ok h
  obtain ⟨r', hway', rfl⟩ := exists_of_resolve_unfollowed hname hplace'
  obtain rfl : r = r' := Except.ok.inj (hway.symm.trans hway')
  have hlocs : r.2 ++ [name] ≠ r.2 ++ [draft] := by
    simpa using Ne.symm hne
  have horigin : t.nodeAt? (r.2 ++ [draft]) ≠ some .directory := by
    rw [nodeAt?_concat]
    exact hfile r hway
  refine ⟨r, n, hway, hn, ?_⟩
  cases hold : t.nodes.get? (r.2 ++ [name]) with
  | none =>
    have hfree : ¬ (r.2 ++ [draft]).isPrefixOf (r.2 ++ [name]) = true := by
      intro hbegins
      have hsame := (List.isPrefixOf_iff_prefix.mp hbegins).eq_of_length (by simp)
      exact hlocs hsame.symm
    rw [hold] at h
    obtain rfl := Except.ok.inj ((if_neg hfree).symm.trans h)
    exact ⟨by simp, base_moveBelow _ _ _, htree.get?_moveBelow hn horigin⟩
  | some old =>
    rw [hold] at h
    have hmoved := (if_neg hlocs).symm.trans h
    have hput : old ≠ .directory ∧
        u = (t.prune (r.2 ++ [name])).moveBelow (r.2 ++ [draft]) (r.2 ++ [name]) := by
      cases n with
      | directory => exact absurd hn (hfile r hway)
      | file content modified =>
        cases old with
        | directory => cases hmoved
        | file content' modified' => exact ⟨by simp, (Except.ok.inj hmoved).symm⟩
        | link target => exact ⟨by simp, (Except.ok.inj hmoved).symm⟩
      | link target =>
        cases old with
        | directory => cases hmoved
        | file content' modified' => exact ⟨by simp, (Except.ok.inj hmoved).symm⟩
        | link target' => exact ⟨by simp, (Except.ok.inj hmoved).symm⟩
    obtain ⟨hplain, rfl⟩ := hput
    have hgives : some old ≠ some Node.directory := fun hdir => hplain (Option.some.inj hdir)
    refine ⟨hgives, base_moveBelow _ _ _, htree.get?_moveBelow_prune hn horigin ?_ hlocs⟩
    rw [nodeAt?_concat, hold]
    exact hgives

/-- A disk stays a tree when what is no directory gets a name that is not a directory's. -/
theorem IsTree.moved (h : t.IsTree) (hloc : t.nodeAt? loc = some .directory)
    (hdraft : t.nodes.get? (loc ++ [draft]) ≠ some .directory)
    (hname : t.nodes.get? (loc ++ [name]) ≠ some .directory) (hbase : u.base = t.base)
    (hget : ∀ l, u.nodes.get? l = if l = loc ++ [name] then some n
      else if l = loc ++ [draft] then none else t.nodes.get? l) : u.IsTree := by
  have hkeep : ∀ {l}, t.nodeAt? l = some .directory → u.nodeAt? l = some .directory := by
    intro l hl
    rw [nodeAt?] at hl ⊢
    split
    · rfl
    · rename_i hroot
      rw [if_neg hroot] at hl
      have hne : l ≠ loc ++ [name] := by
        rintro rfl
        exact hname hl
      have hne' : l ≠ loc ++ [draft] := by
        rintro rfl
        exact hdraft hl
      rw [hget, if_neg hne, if_neg hne', hl]
  refine ⟨?_, hbase ▸ hkeep h.base⟩
  intro l m n' hn
  rw [hget] at hn
  split at hn
  · rename_i hsame
    rw [List.append_inj_left' hsame rfl]
    exact hkeep hloc
  · split at hn
    · cases hn
    · exact hkeep (h.parent hn)

/-- What replacing a file leaves, whichever names are links: the name leads to the new content, if
it leads to a file, and every other way is an old one or leads to the new content. -/
structure Rewritten (t u : FileTree) (dir : Path) (loc : Location)
    (name content : Bytes) : Prop where
  isTree : u.IsTree
  start : u.start dir = t.start dir
  way : ∃ r, t.wayTo dir = .ok r ∧ r.2 = loc
  holdsOnly : u.HoldsOnly loc name (· = content)
  arrives : ∀ {cur hs place}, u.Arrives cur hs place →
    place.Admits (· = content) ∨ t.Arrives cur hs place

/-- The directory is where it was. -/
theorem Rewritten.location_eq (h : Rewritten t u dir loc name content) {r : Nat × Location}
    (hway : u.wayTo dir = .ok r) : r.2 = loc := by
  obtain ⟨r₀, hway₀, rfl⟩ := h.way
  rcases h.arrives (arrives_of_wayTo hway) with hfile | hold
  · exact hfile.elim
  · rw [h.start] at hold
    exact (Place.node.inj (hold.unique (arrives_of_wayTo hway₀))).1

/-- **Whichever names are links, a draft that is written and moved into place is what is found
there.** -/
theorem rewritten_of_run {t₁ : FileTree} (htree : t.IsTree) (hdraft : draft.IsFileName)
    (hname : name.IsFileName) (hne : draft ≠ name)
    (hwrite : t.write (dir.join ⟨draft⟩) content now = .ok t₁)
    (hrename : t₁.rename (dir.join ⟨draft⟩) (dir.join ⟨name⟩) = .ok u) :
    ∃ loc, Rewritten t u dir loc name content := by
  obtain ⟨r, place, hway, hwalk, hfree, rfl⟩ := exists_place_of_write hdraft hwrite
  have htree₁ := htree.put_place hway hwalk hfree content now
  have honly := holdsOnly_put (arrives_of_walk hwalk) hfree content now
  have hback : ∀ {cur hs found},
      (t.put place.location (.file content now)).Arrives cur hs found →
        found.Admits (· = content) ∨ t.Arrives cur hs found := by
    intro cur hs found hfound
    rcases hfound.of_put with rfl | hold
    · exact .inl rfl
    · exact .inr hold.1
  have hlocation : ∀ r', (t.put place.location (.file content now)).wayTo dir = .ok r' →
      r'.2 = r.2 := by
    intro r' hway'
    rcases hback (arrives_of_wayTo hway') with hfile | hold
    · exact hfile.elim
    · exact (Place.node.inj (hold.unique (arrives_of_wayTo hway))).1
  have hfile : ∀ r', (t.put place.location (.file content now)).wayTo dir = .ok r' →
      (t.put place.location (.file content now)).nodes.get? (r'.2 ++ [draft]) ≠
        some .directory := by
    intro r' hway' hdir
    rw [hlocation r' hway'] at hdir
    exact honly _ (.directory hdir (.here _))
  obtain ⟨r', n, hway', hnode, hold, hbase, hget⟩ :=
    exists_of_rename htree₁ hdraft hname hne hfile hrename
  have hloc := htree₁.nodeAt?_of_wayTo hway'
  have hnotdir := hfile r' hway'
  rw [hlocation r' hway'] at hnode hold hget hloc hnotdir
  refine ⟨r.2, htree₁.moved hloc hnotdir hold hbase hget, ?_, ⟨r, hway, rfl⟩, ?_, ?_⟩
  · rw [FileTree.start, FileTree.start, hbase]
    rfl
  · intro found hfound
    exact (hfound.of_move hnode honly hget).elim id fun hold => absurd rfl (hold.2 rfl)
  · intro cur hs found hfound
    exact (hfound.of_move hnode honly hget).elim .inl fun hold => hback hold.1

/-- What is read in a directory is where its name leads. -/
theorem exists_arrives_of_read (hname : name.IsFileName)
    (h : t.read (dir.join ⟨name⟩) = .ok content) :
    ∃ r loc modified, t.wayTo dir = .ok r ∧
      t.Arrives r.2 [.down name] (.node loc (.file content modified)) := by
  obtain ⟨⟨loc, n⟩, hfind, hcontent⟩ := exists_of_bind_eq_ok h
  rw [find] at hfind
  cases hplace : t.resolve true (dir.join ⟨name⟩) with
  | error fault =>
    rw [hplace] at hfind
    cases hfind
  | ok place =>
    rw [hplace] at hfind
    obtain ⟨r, hway, hwalk⟩ := exists_of_resolve_join hname hplace
    cases place with
    | vacant loc => cases hfind
    | node loc' n' =>
      obtain ⟨rfl, rfl⟩ := Prod.mk.inj (Except.ok.inj hfind)
      cases n' with
      | directory => cases hcontent
      | link target => cases hcontent
      | file content' modified =>
        obtain rfl := Except.ok.inj hcontent
        exact ⟨r, loc', modified, hway, arrives_of_walk hwalk⟩

end FileTree
end AnalysisRunner
