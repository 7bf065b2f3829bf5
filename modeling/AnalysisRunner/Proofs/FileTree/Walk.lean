import Mathlib.Data.List.Basic
import Mathlib.Data.List.Induction
import AnalysisRunner.FileTree.Operations
import AnalysisRunner.Proofs.Lookup

/-!
# Ways through a disk

A walk along `hs ++ rest` first goes where `hs` leads and then along `rest` (`walk_append`),
as long as `rest` is not empty: on the way every name must be a directory or a link, and
links are followed whatever the walk does about its last name.  `descend` is the first part
of such a walk.  It tells the directory it arrives at and how many links may still be
followed.

What a way depends on are the directories and the links, its *passages*; files may come and
go (`descend_congr`).

The second half is about disks that are trees: whatever is there lies in a directory.  Then
a walk arrives at what is there, or at a free name in a directory (`IsTree.place_of_walk`).
-/

namespace AnalysisRunner

/-- Whether one can go through a node: it is a directory or a link. -/
def Node.isPassage : Node → Bool
  | .file _ _ => false
  | .directory => true
  | .link _ => true

namespace Path

variable {target : Path} {atEnd : Bool} {x : Except DiskFault Place}
  {loc : Location} {place : Place}

/-- A target that insists on a directory does not change where its moves lead. -/
theorem eq_ok_of_allow (h : target.allow atEnd x = .ok place) : x = .ok place := by
  rw [allow] at h
  split at h
  · cases x with
    | error fault => cases h
    | ok found =>
      cases found with
      | vacant loc => cases h
      | node loc n =>
        cases n with
        | file content modified => cases h
        | directory => exact h
        | link target => exact h
  · exact h

theorem allow_directory (target : Path) (atEnd : Bool) (loc : Location) :
    target.allow atEnd (.ok (.node loc .directory)) = .ok (.node loc .directory) := by
  rw [allow]
  split <;> rfl

end Path

namespace FileTree

variable {t : FileTree} {links : Nat} {cur loc : Location} {hs rest : List Hop}

/-! ## 1. The first part of a walk -/

theorem exists_of_bind_eq_ok {ε α β : Type} {x : Except ε α} {f : α → Except ε β} {b : β}
    (h : x.bind f = .ok b) : ∃ a, x = .ok a ∧ f a = .ok b := by
  cases x with
  | error e => cases h
  | ok a => exact ⟨a, rfl, h⟩

/-- Follows moves through directories and links, and says how many links may still be
followed and in which directory one has arrived. -/
def descend (t : FileTree) : Nat → Location → List Hop → Except DiskFault (Nat × Location)
  | links, cur, [] => .ok (links, cur)
  | links, cur, .up :: rest => descend t links cur.dropLast rest
  | links, cur, .down name :: rest =>
    if maxNameLength < name.length then .error .nameTooLong
    else
      match t.nodes.get? (cur ++ [name]) with
      | none => .error .notFound
      | some .directory => descend t links (cur ++ [name]) rest
      | some (.file _ _) => .error .notDirectory
      | some (.link target) =>
        match links with
        | 0 => .error .tooManyLinks
        | links + 1 =>
          descend t links (if target.isAbsolute then [] else cur) (target.hops ++ rest)
termination_by links _ hops => (links, hops.length)

/-- **A walk goes through the directory that its first part leads to.** -/
theorem walk_append (t : FileTree) (follow : Bool) (hrest : rest ≠ []) (links : Nat)
    (cur : Location) (hs : List Hop) :
    t.walk follow links cur (hs ++ rest) =
      (t.descend links cur hs).bind fun r => t.walk follow r.1 r.2 rest := by
  have hmore : ∀ hs : List Hop, (hs ++ rest).isEmpty = false := by
    intro hs
    cases hs with
    | nil => simpa using hrest
    | cons h hs => rfl
  fun_induction descend t links cur hs with
  | case1 links cur => rfl
  | case2 links cur hs ih => rw [List.cons_append, walk, ih]
  | case3 links cur name hs hlong =>
    rw [List.cons_append, walk, if_pos hlong]
    rfl
  | case4 links cur name hs hshort hnode =>
    rw [List.cons_append, walk, if_neg hshort]
    simp only [hnode, hmore]
    rfl
  | case5 links cur name hs hshort hnode ih =>
    rw [List.cons_append, walk, if_neg hshort]
    simp only [hnode, ih]
  | case6 links cur name hs hshort content modified hnode =>
    rw [List.cons_append, walk, if_neg hshort]
    simp only [hnode, hmore]
    rfl
  | case7 cur name hs hshort target hnode =>
    rw [List.cons_append, walk, if_neg hshort]
    simp only [hnode, hmore]
    rfl
  | case8 cur name hs hshort target hnode links ih =>
    rw [List.cons_append, walk, if_neg hshort]
    simp only [hnode, hmore, Path.allow, Bool.false_and, Bool.false_eq_true, if_false]
    simpa only [List.append_assoc, dite_eq_ite] using ih

theorem descend_append (t : FileTree) (links : Nat) (cur : Location) (hs rest : List Hop) :
    t.descend links cur (hs ++ rest) =
      (t.descend links cur hs).bind fun r => t.descend r.1 r.2 rest := by
  fun_induction descend t links cur hs with
  | case1 links cur => rfl
  | case2 links cur hs ih => rw [List.cons_append, descend, ih]
  | case3 links cur name hs hlong =>
    rw [List.cons_append, descend, if_pos hlong]
    rfl
  | case4 links cur name hs hshort hnode =>
    rw [List.cons_append, descend, if_neg hshort]
    simp only [hnode]
    rfl
  | case5 links cur name hs hshort hnode ih =>
    rw [List.cons_append, descend, if_neg hshort]
    simp only [hnode, ih]
  | case6 links cur name hs hshort content modified hnode =>
    rw [List.cons_append, descend, if_neg hshort]
    simp only [hnode]
    rfl
  | case7 cur name hs hshort target hnode =>
    rw [List.cons_append, descend, if_neg hshort]
    simp only [hnode]
    rfl
  | case8 cur name hs hshort target hnode links ih =>
    rw [List.cons_append, descend, if_neg hshort]
    simp only [hnode]
    simpa only [List.append_assoc, dite_eq_ite] using ih

/-- A way that leads to a directory is a walk to it, if links are followed. -/
theorem walk_of_descend {links' : Nat} (h : t.descend links cur hs = .ok (links', loc)) :
    t.walk true links cur hs = .ok (.node loc .directory) := by
  fun_induction descend t links cur hs with
  | case1 links cur =>
    obtain ⟨-, rfl⟩ := Prod.mk.inj (Except.ok.inj h)
    rw [walk]
  | case2 links cur hs ih => rw [walk, ih h]
  | case3 => cases h
  | case4 => cases h
  | case5 links cur name hs hshort hnode ih =>
    rw [walk, if_neg hshort]
    simp only [hnode, ih h]
  | case6 => cases h
  | case7 => cases h
  | case8 cur name hs hshort target hnode links ih =>
    rw [walk, if_neg hshort]
    simp only [hnode, Bool.not_true, Bool.and_false, Bool.false_eq_true, if_false]
    have hwalk := ih h
    simp only [dite_eq_ite] at hwalk
    rw [hwalk, Path.allow_directory]

/-- A way that leads to a directory is a walk to something that is there, whether a link at
its end is followed or not. -/
theorem exists_node_of_descend {r : Nat × Location} (h : t.descend links cur hs = .ok r)
    (follow : Bool) : ∃ loc n, t.walk follow links cur hs = .ok (.node loc n) := by
  cases follow with
  | true => exact ⟨r.2, .directory, walk_of_descend h⟩
  | false =>
    rcases List.eq_nil_or_concat' hs with rfl | ⟨before, last, rfl⟩
    · exact ⟨cur, .directory, by rw [walk]⟩
    · rw [descend_append] at h
      obtain ⟨mid, hmid, hlast⟩ := exists_of_bind_eq_ok h
      rw [walk_append t false (List.cons_ne_nil _ _), hmid]
      change ∃ loc n, t.walk false mid.1 mid.2 [last] = .ok (.node loc n)
      cases last with
      | up => exact ⟨mid.2.dropLast, .directory, by rw [walk, walk]⟩
      | down name =>
        rw [descend] at hlast
        split at hlast
        · cases hlast
        · rename_i hshort
          rw [walk, if_neg hshort]
          split at hlast
          · cases hlast
          · rename_i hnode
            exact ⟨mid.2 ++ [name], .directory, by simp only [hnode]; rw [walk]⟩
          · cases hlast
          · rename_i target hnode
            exact ⟨mid.2 ++ [name], .link target, by simp [hnode]⟩

/-! ## 2. Passages -/

/-- The directory or the link at a location. -/
def passage (t : FileTree) (loc : Location) : Option Node :=
  (t.nodes.get? loc).filter Node.isPassage

theorem passage_eq_some_iff {n : Node} :
    t.passage loc = some n ↔ t.nodes.get? loc = some n ∧ n.isPassage = true := by
  rw [passage, Option.filter_eq_some_iff]

/-- **A way stays what it is on a disk that has the same directories and links, and maybe
more.** -/
theorem descend_mono {u : FileTree}
    (hkeep : ∀ {loc n}, t.nodes.get? loc = some n → n.isPassage = true → u.nodes.get? loc = some n)
    {r : Nat × Location} (h : t.descend links cur hs = .ok r) : u.descend links cur hs = .ok r := by
  fun_induction descend t links cur hs with
  | case1 links cur => rw [descend, h]
  | case2 links cur hs ih => rw [descend, ih h]
  | case3 => cases h
  | case4 => cases h
  | case5 links cur name hs hshort hdir ih =>
    rw [descend, if_neg hshort]
    simp only [hkeep hdir rfl, ih h]
  | case6 => cases h
  | case7 => cases h
  | case8 cur name hs hshort target hlink links ih =>
    rw [descend, if_neg hshort]
    simp only [hkeep hlink rfl]
    simpa only [dite_eq_ite] using ih h

/-- **Two disks with the same directories and links have the same ways.** -/
theorem descend_congr {u : FileTree} (hsame : ∀ loc, t.passage loc = u.passage loc)
    {r : Nat × Location} (h : t.descend links cur hs = .ok r) :
    u.descend links cur hs = .ok r := by
  refine descend_mono ?_ h
  intro loc n hn hpass
  have hpassage := passage_eq_some_iff.mpr ⟨hn, hpass⟩
  rw [hsame] at hpassage
  exact (passage_eq_some_iff.mp hpassage).1

/-! ## 3. Trees -/

/-- Whether everything on a disk lies in a directory, the working directory included. -/
structure IsTree (t : FileTree) : Prop where
  parent : ∀ {loc name n}, t.nodes.get? (loc ++ [name]) = some n → t.nodeAt? loc = some .directory
  base : t.nodeAt? t.base = some .directory

theorem nodeAt?_concat (t : FileTree) (loc : Location) (name : Bytes) :
    t.nodeAt? (loc ++ [name]) = t.nodes.get? (loc ++ [name]) := by
  rw [nodeAt?, if_neg (by simp)]

/-- Above everything that is there are directories. -/
theorem IsTree.above (h : t.IsTree) {n : Node} (below : List Bytes) (hbelow : below ≠ [])
    (hn : t.nodes.get? (loc ++ below) = some n) : t.nodeAt? loc = some .directory := by
  induction below using List.reverseRecOn generalizing n with
  | nil => exact absurd rfl hbelow
  | append_singleton rest name ih =>
    rw [← List.append_assoc] at hn
    have hparent := h.parent hn
    by_cases hrest : rest = []
    · rwa [hrest, List.append_nil] at hparent
    · rw [nodeAt?, if_neg (by simp [hrest])] at hparent
      exact ih hrest hparent

theorem IsTree.dropLast (h : t.IsTree) (hcur : t.nodeAt? cur = some .directory) :
    t.nodeAt? cur.dropLast = some .directory := by
  rcases List.eq_nil_or_concat' cur with rfl | ⟨before, name, rfl⟩
  · exact hcur
  · rw [List.dropLast_concat]
    rw [nodeAt?_concat] at hcur
    exact h.parent hcur

/-- Where walks begin. -/
def start (t : FileTree) (p : Path) : Location :=
  if p.isAbsolute then [] else t.base

theorem IsTree.start (h : t.IsTree) (p : Path) : t.nodeAt? (t.start p) = some .directory := by
  unfold FileTree.start
  split
  · rfl
  · exact h.base

theorem IsTree.linkStart (hcur : t.nodeAt? cur = some .directory) (target : Path) :
    t.nodeAt? (if target.isAbsolute then [] else cur) = some .directory := by
  split
  · rfl
  · exact hcur

/-- **A walk arrives at what is there**: at a directory, a file or a link, or at a free name
in a directory. -/
theorem IsTree.place_of_walk (h : t.IsTree) {follow : Bool} (hcur : t.nodeAt? cur = some .directory)
    {place : Place} (hwalk : t.walk follow links cur hs = .ok place) :
    (∃ loc n, place = .node loc n ∧ t.nodeAt? loc = some n ∧
        (follow = true → ∀ target, n ≠ .link target)) ∨
      ∃ dir name, place = .vacant (dir ++ [name]) ∧ t.nodeAt? dir = some .directory ∧
        t.nodes.get? (dir ++ [name]) = none := by
  fun_induction walk t follow links cur hs with
  | case1 links cur =>
    obtain rfl := Except.ok.inj hwalk
    exact .inl ⟨cur, .directory, rfl, hcur, by simp⟩
  | case2 links cur hs ih => exact ih (h.dropLast hcur) hwalk
  | case3 => cases hwalk
  | case4 links cur name hs hshort loc hnode hempty =>
    obtain rfl := Except.ok.inj hwalk
    exact .inr ⟨cur, name, rfl, hcur, hnode⟩
  | case5 => cases hwalk
  | case6 links cur name hs hshort loc hnode ih =>
    exact ih ((t.nodeAt?_concat cur name).trans hnode) hwalk
  | case7 links cur name hs hshort loc content modified hnode hempty =>
    obtain rfl := Except.ok.inj hwalk
    exact .inl ⟨loc, _, rfl, (t.nodeAt?_concat cur name).trans hnode, by simp⟩
  | case8 => cases hwalk
  | case9 links cur name hs hshort loc target hnode hlast =>
    obtain rfl := Except.ok.inj hwalk
    refine .inl ⟨loc, _, rfl, (t.nodeAt?_concat cur name).trans hnode, ?_⟩
    intro hfollow
    simp [hfollow] at hlast
  | case10 => cases hwalk
  | case11 cur name hs hshort loc target hnode hlast links ih =>
    exact ih (IsTree.linkStart hcur target) (Path.eq_ok_of_allow hwalk)

end FileTree
end AnalysisRunner
