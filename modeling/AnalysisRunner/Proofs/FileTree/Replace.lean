import AnalysisRunner.FileTree.Steps
import AnalysisRunner.Proofs.FileTree.Walk
import AnalysisRunner.Proofs.Path.Join

/-!
# Replacing a file

A file is replaced by writing the new content beside it and moving that into its place.  If
neither of the two names is a link, then afterwards the place holds the new content, the
other name is free, and nothing else has changed (`replaced_of_run`); above all, the
directory is still found on the same way.

A disk stays a tree meanwhile, for only files give way to files.
-/

namespace AnalysisRunner

/-- Whether bytes can be the name of a file: a component that is no dot, without the byte
that ends names, and not too long. -/
structure Bytes.IsFileName (name : Bytes) : Prop where
  inner : (Component.name name).IsInner
  noNul : 0 ∉ name
  short : name.length ≤ FileTree.maxNameLength

namespace FileTree

variable {t : FileTree} {loc : Location} {dir : Path} {name : Bytes}

/-! ## 1. Putting and pruning -/

theorem get?_put (t : FileTree) (loc : Location) (n : Node) (l : Location) :
    (t.put loc n).nodes.get? l = if l = loc then some n else t.nodes.get? l :=
  Table.get?_insert t.nodes loc l n

/-- What takes the place of something must not leave anything hanging below it. -/
theorem IsTree.put (h : t.IsTree) {n : Node} (hdir : t.nodeAt? loc = some .directory)
    (hfree : t.nodes.get? (loc ++ [name]) = some .directory → n = .directory) :
    (t.put (loc ++ [name]) n).IsTree := by
  have hkeep : ∀ {l}, t.nodeAt? l = some .directory →
      (t.put (loc ++ [name]) n).nodeAt? l = some .directory := by
    intro l hl
    rw [nodeAt?] at hl ⊢
    split
    · rfl
    · rename_i hne
      rw [if_neg hne] at hl
      rw [get?_put]
      split
      · rename_i hsame
        rw [hfree (hsame ▸ hl)]
      · exact hl
  refine ⟨?_, hkeep h.base⟩
  intro l m n' hn
  rw [get?_put] at hn
  split at hn
  · rename_i hsame
    rw [(List.append_inj_left' hsame rfl)]
    exact hkeep hdir
  · exact hkeep (h.parent hn)

theorem get?_prune (t : FileTree) (loc l : Location) :
    (t.prune loc).nodes.get? l = if loc <+: l then none else t.nodes.get? l := by
  rw [prune, Table.get?_filter]
  by_cases h : loc <+: l
  · rw [if_pos h, Option.filter_eq_none_iff]
    simp [h]
  · have hfalse : loc.isPrefixOf l = false := by
      rw [Bool.eq_false_iff]
      exact fun hbegins => h (List.isPrefixOf_iff_prefix.mp hbegins)
    rw [if_neg h]
    cases t.nodes.get? l <;> simp [hfalse]

/-- Below what is no directory there is nothing. -/
theorem IsTree.get?_prune_of_ne (h : t.IsTree) (hloc : t.nodeAt? loc ≠ some .directory)
    (l : Location) :
    (t.prune loc).nodes.get? l = if l = loc then none else t.nodes.get? l := by
  rw [get?_prune]
  by_cases hl : l = loc
  · rw [if_pos hl, if_pos (hl ▸ List.prefix_refl _)]
  · rw [if_neg hl]
    split
    · rename_i hbegins
      obtain ⟨below, rfl⟩ := hbegins
      have hbelow : below ≠ [] := by
        rintro rfl
        exact hl (List.append_nil _)
      cases hn : t.nodes.get? (loc ++ below) with
      | none => rfl
      | some n => exact absurd (h.above below hbelow hn) hloc
    · rfl

theorem IsTree.prune (h : t.IsTree) (hloc : t.nodeAt? loc ≠ some .directory) :
    (t.prune loc).IsTree := by
  have hkeep : ∀ {l}, t.nodeAt? l = some .directory →
      (t.prune loc).nodeAt? l = some .directory := by
    intro l hl
    have hne : l ≠ loc := by
      rintro rfl
      exact hloc hl
    rw [nodeAt?] at hl ⊢
    rwa [h.get?_prune_of_ne hloc, if_neg hne]
  refine ⟨?_, hkeep h.base⟩
  intro l m n hn
  rw [h.get?_prune_of_ne hloc] at hn
  split at hn
  · cases hn
  · exact hkeep (h.parent hn)

theorem base_moveBelow (t : FileTree) (src dst : Location) :
    (t.moveBelow src dst).base = t.base := by
  have hfold : ∀ (es : List (Location × Node)) (u : FileTree),
      (es.foldl (fun t e => t.put (dst ++ e.1.drop src.length) e.2) u).base = u.base := by
    intro es
    induction es with
    | nil => exact fun u => rfl
    | cons e es ih => exact fun u => ih _
  exact hfold _ _

/-- What is moved is the node alone, if it is no directory. -/
theorem IsTree.get?_moveBelow (h : t.IsTree) {src dst : Location} {n : Node}
    (hsrc : t.nodes.get? src = some n) (hne : t.nodeAt? src ≠ some .directory) (l : Location) :
    (t.moveBelow src dst).nodes.get? l =
      if l = dst then some n else if l = src then none else t.nodes.get? l := by
  have hall : ∀ e ∈ t.nodes.entries.filter fun e => src.isPrefixOf e.1, e = (src, n) := by
    intro e he
    obtain ⟨hmem, hbegins⟩ := List.mem_filter.mp he
    obtain ⟨below, hbelow⟩ := List.isPrefixOf_iff_prefix.mp hbegins
    have hget : t.nodes.get? (src ++ below) = some e.2 := by
      rw [hbelow]
      exact Table.get?_eq_some_iff.mpr hmem
    have hnil : below = [] := by
      by_contra hne'
      exact hne (h.above below hne' hget)
    rw [hnil, List.append_nil] at hbelow hget
    rw [hsrc] at hget
    rw [Prod.ext_iff]
    exact ⟨hbelow.symm, (Option.some.inj hget).symm⟩
  have hmoved : (t.nodes.entries.filter fun e => src.isPrefixOf e.1) = [(src, n)] := by
    have hentries : t.nodes.entries.Nodup :=
      List.Pairwise.of_map Prod.fst (fun _ _ hne heq => hne (heq ▸ rfl)) t.nodes.nodup
    have hnodup := hentries.filter fun e => src.isPrefixOf e.1
    have hmem : (src, n) ∈ t.nodes.entries.filter fun e => src.isPrefixOf e.1 :=
      List.mem_filter.mpr ⟨Table.get?_eq_some_iff.mp hsrc, by simp⟩
    cases hlist : t.nodes.entries.filter fun e => src.isPrefixOf e.1 with
    | nil =>
      rw [hlist] at hmem
      cases hmem
    | cons e rest =>
      rw [hlist] at hall hnodup
      cases rest with
      | nil => rw [hall e (List.mem_cons_self ..)]
      | cons e' rest =>
        have hsame : e = e' :=
          (hall e (by simp)).trans (hall e' (by simp)).symm
        simp [hsame] at hnodup
  rw [moveBelow, hmoved, List.foldl_cons, List.foldl_nil, get?_put, h.get?_prune_of_ne hne]
  simp

/-- What gives way to what is moved is gone. -/
theorem IsTree.get?_moveBelow_prune (h : t.IsTree) {src dst : Location} {n : Node}
    (hsrc : t.nodes.get? src = some n) (hne : t.nodeAt? src ≠ some .directory)
    (hdst : t.nodeAt? dst ≠ some .directory) (hlocs : dst ≠ src) (l : Location) :
    ((t.prune dst).moveBelow src dst).nodes.get? l =
      if l = dst then some n else if l = src then none else t.nodes.get? l := by
  have hpruned := h.get?_prune_of_ne hdst
  have hkept : (t.prune dst).nodes.get? src = some n := by
    rw [hpruned, if_neg (Ne.symm hlocs), hsrc]
  have hkept' : (t.prune dst).nodeAt? src ≠ some .directory := by
    rw [nodeAt?] at hne ⊢
    split
    · rename_i hroot
      rw [if_pos hroot] at hne
      exact hne
    · rename_i hroot
      rw [if_neg hroot, hsrc] at hne
      rwa [hkept]
  rw [(h.prune hdst).get?_moveBelow hkept hkept', hpruned]
  by_cases hl : l = dst <;> simp [hl]

/-! ## 2. A name in a directory -/

/-- The way to a directory. -/
def wayTo (t : FileTree) (dir : Path) : Except DiskFault (Nat × Location) :=
  t.descend maxLinks (t.start dir) dir.hops

theorem resolve_join (t : FileTree) (follow : Bool) (dir : Path) (hname : name.IsFileName) :
    t.resolve follow (dir.join ⟨name⟩) =
      if dir.bytes.contains 0 then .error .invalidName
      else (t.wayTo dir).bind fun r => t.walk follow r.1 r.2 [.down name] := by
  have hempty : (dir.join ⟨name⟩).bytes.isEmpty = false := by
    simpa using Path.bytes_join_ne_nil dir hname.inner
  rw [resolve, hempty, if_neg Bool.false_ne_true,
    Path.contains_zero_join dir hname.inner hname.noNul,
    Path.isDirectoryOnly_join dir hname.inner, Path.isAbsolute_join dir hname.inner,
    Path.hops_join dir hname.inner, walk_append t _ (List.cons_ne_nil _ _)]
  simp only [Bool.or_false, Bool.false_eq_true, if_false]
  split
  · rfl
  · show _ = (t.descend maxLinks (t.start dir) dir.hops).bind _
    unfold FileTree.start
    split <;> simp_all

/-- A name that is no link leads to itself. -/
theorem walk_name (t : FileTree) (follow : Bool) (links : Nat) (loc : Location)
    (hname : name.IsFileName)
    (hlink : ∀ target, t.nodes.get? (loc ++ [name]) ≠ some (.link target)) :
    t.walk follow links loc [.down name] =
      .ok ((t.nodes.get? (loc ++ [name])).elim (.vacant (loc ++ [name]))
        (.node (loc ++ [name]))) := by
  rw [walk, if_neg (Nat.not_lt.mpr hname.short)]
  cases hnode : t.nodes.get? (loc ++ [name]) with
  | none => simp [hnode]
  | some n =>
    cases n with
    | directory => simp [hnode, walk]
    | file content modified => simp [hnode]
    | link target => exact absurd hnode (hlink target)

/-- A name that is a link leads where the link leads. -/
theorem walk_link {target : Path} (hname : name.IsFileName)
    (hlink : t.nodes.get? (loc ++ [name]) = some (.link target)) (links : Nat) :
    t.walk true (links + 1) loc [.down name] = target.allow true
      (t.walk true links (if target.isAbsolute then [] else loc) target.hops) := by
  rw [walk, if_neg (Nat.not_lt.mpr hname.short)]
  simp [hlink]

/-- Whether a name in a directory is no link. -/
def IsPlainName (t : FileTree) (dir : Path) (name : Bytes) : Prop :=
  ∀ r target, t.wayTo dir = .ok r → t.nodes.get? (r.2 ++ [name]) ≠ some (.link target)

theorem resolve_join_of_plain {r : Nat × Location} (follow : Bool) (hname : name.IsFileName)
    (hplain : t.IsPlainName dir name) (hnul : dir.bytes.contains 0 = false)
    (hway : t.wayTo dir = .ok r) :
    t.resolve follow (dir.join ⟨name⟩) =
      .ok ((t.nodes.get? (r.2 ++ [name])).elim (.vacant (r.2 ++ [name]))
        (.node (r.2 ++ [name]))) := by
  rw [resolve_join t follow dir hname, hnul, if_neg Bool.false_ne_true, hway]
  exact t.walk_name follow r.1 r.2 hname fun target => hplain r target hway

/-- **A file that is written under a name which is no link is put there.** -/
theorem exists_of_write {content : Bytes} {now : Nat} {t' : FileTree} (hname : name.IsFileName)
    (hplain : t.IsPlainName dir name)
    (h : t.write (dir.join ⟨name⟩) content now = .ok t') :
    ∃ r, dir.bytes.contains 0 = false ∧ t.wayTo dir = .ok r ∧
      t.nodes.get? (r.2 ++ [name]) ≠ some .directory ∧
      t' = t.put (r.2 ++ [name]) (.file content now) := by
  have hdir := Path.isDirectoryOnly_join dir hname.inner
  cases hnul : dir.bytes.contains 0 with
  | true =>
    rw [write, hdir, resolve_join t true dir hname, hnul] at h
    cases h
  | false =>
    cases hway : t.wayTo dir with
    | error fault =>
      rw [write, hdir, resolve_join t true dir hname, hnul, hway] at h
      cases h
    | ok r =>
      rw [write, hdir, resolve_join_of_plain true hname hplain hnul hway] at h
      refine ⟨r, rfl, rfl, ?_⟩
      cases hnode : t.nodes.get? (r.2 ++ [name]) with
      | none =>
        rw [hnode] at h
        exact ⟨by simp, (Except.ok.inj h).symm⟩
      | some n =>
        rw [hnode] at h
        cases n with
        | directory => cases h
        | file content' modified => exact ⟨by simp, (Except.ok.inj h).symm⟩
        | link target => exact absurd hnode (hplain r target hway)

theorem write_of_plain {r : Nat × Location} (hname : name.IsFileName)
    (hplain : t.IsPlainName dir name)
    (hnul : dir.bytes.contains 0 = false) (hway : t.wayTo dir = .ok r)
    (hfree : t.nodes.get? (r.2 ++ [name]) ≠ some .directory) (content : Bytes) (now : Nat) :
    t.write (dir.join ⟨name⟩) content now = .ok (t.put (r.2 ++ [name]) (.file content now)) := by
  rw [write, Path.isDirectoryOnly_join dir hname.inner,
    resolve_join_of_plain true hname hplain hnul hway]
  cases hnode : t.nodes.get? (r.2 ++ [name]) with
  | none => rfl
  | some n =>
    cases n with
    | directory => exact absurd hnode hfree
    | file content' modified => rfl
    | link target => exact absurd hnode (hplain r target hway)

/-- **A file gets another name in the same directory, unless that is the name of a directory.** -/
theorem rename_cases {draft : Bytes} {content : Bytes} {modified : Nat} {r : Nat × Location}
    (htree : t.IsTree) (hdraft : draft.IsFileName) (hname : name.IsFileName) (hne : draft ≠ name)
    (hnul : dir.bytes.contains 0 = false) (hway : t.wayTo dir = .ok r)
    (hplain : t.IsPlainName dir name)
    (hfile : t.nodes.get? (r.2 ++ [draft]) = some (.file content modified)) :
    t.nodes.get? (r.2 ++ [name]) = some .directory ∧
        t.rename (dir.join ⟨draft⟩) (dir.join ⟨name⟩) = .error .isDirectory ∨
      t.nodes.get? (r.2 ++ [name]) ≠ some .directory ∧
        ∃ t', t.rename (dir.join ⟨draft⟩) (dir.join ⟨name⟩) = .ok t' ∧ t'.base = t.base ∧
          ∀ l, t'.nodes.get? l = if l = r.2 ++ [name] then some (.file content modified)
            else if l = r.2 ++ [draft] then none else t.nodes.get? l := by
  have hlocs : r.2 ++ [name] ≠ r.2 ++ [draft] := by
    simpa using Ne.symm hne
  have horigin : t.nodeAt? (r.2 ++ [draft]) ≠ some .directory := by
    rw [nodeAt?_concat, hfile]
    simp
  have hdraftPlain : t.IsPlainName dir draft := by
    intro r' target hway'
    rw [hway] at hway'
    rw [← Except.ok.inj hway', hfile]
    simp
  rw [rename, resolve_join_of_plain false hdraft hdraftPlain hnul hway, hfile,
    resolve_join_of_plain false hname hplain hnul hway]
  cases hnode : t.nodes.get? (r.2 ++ [name]) with
  | none =>
    have hfree : ¬ (r.2 ++ [draft]).isPrefixOf (r.2 ++ [name]) = true := by
      intro hbegins
      have := (List.isPrefixOf_iff_prefix.mp hbegins).eq_of_length (by simp)
      exact hlocs this.symm
    exact .inr ⟨by simp, _, if_neg hfree, base_moveBelow _ _ _, htree.get?_moveBelow hfile horigin⟩
  | some n =>
    cases n with
    | directory => exact .inl ⟨rfl, if_neg hlocs⟩
    | link target => exact absurd hnode (hplain r target hway)
    | file content' modified' =>
      have hplace : t.nodeAt? (r.2 ++ [name]) ≠ some .directory := by
        rw [nodeAt?_concat, hnode]
        simp
      exact .inr ⟨by simp, _, if_neg hlocs, base_moveBelow _ _ _,
        htree.get?_moveBelow_prune hfile horigin hplace hlocs⟩

/-! ## 3. Files come and go -/

/-- A disk with the directories and links of a tree is a tree, if its files lie in
directories. -/
theorem IsTree.congr (h : t.IsTree) {u : FileTree} (hbase : u.base = t.base)
    (hsame : ∀ loc, t.passage loc = u.passage loc)
    (hfiles : ∀ loc name content modified,
      u.nodes.get? (loc ++ [name]) = some (.file content modified) →
      t.nodeAt? loc = some .directory) : u.IsTree := by
  have hkeep : ∀ {loc}, t.nodeAt? loc = some .directory → u.nodeAt? loc = some .directory := by
    intro loc hloc
    rw [nodeAt?] at hloc ⊢
    split
    · rfl
    · rename_i hne
      rw [if_neg hne] at hloc
      have hpassage := passage_eq_some_iff.mpr ⟨hloc, rfl⟩
      rw [hsame] at hpassage
      exact (passage_eq_some_iff.mp hpassage).1
  refine ⟨?_, by rw [hbase]; exact hkeep h.base⟩
  intro loc name n hn
  cases hpass : n.isPassage with
  | true =>
    have hpassage := passage_eq_some_iff.mpr ⟨hn, hpass⟩
    rw [← hsame] at hpassage
    exact hkeep (h.parent (passage_eq_some_iff.mp hpassage).1)
  | false =>
    cases n with
    | directory => cases hpass
    | link target => cases hpass
    | file content modified => exact hkeep (hfiles loc name content modified hn)

theorem wayTo_congr {u : FileTree} {r : Nat × Location} (hbase : u.base = t.base)
    (hsame : ∀ loc, t.passage loc = u.passage loc) (h : t.wayTo dir = .ok r) :
    u.wayTo dir = .ok r := by
  have hstart : u.start dir = t.start dir := by
    rw [start, start, hbase]
  rw [wayTo, hstart]
  exact descend_congr hsame h

/-- A way that begins in a directory leads to a directory. -/
theorem IsTree.nodeAt?_of_descend (h : t.IsTree) {links : Nat} {hs : List Hop} {r : Nat × Location}
    (hcur : t.nodeAt? loc = some .directory) (hway : t.descend links loc hs = .ok r) :
    t.nodeAt? r.2 = some .directory := by
  rcases h.place_of_walk hcur (walk_of_descend hway) with
    ⟨loc, n, hplace, hnode, -⟩ | ⟨loc, name, hplace, -⟩
  · cases hplace
    exact hnode
  · cases hplace

theorem IsTree.nodeAt?_of_wayTo (h : t.IsTree) {r : Nat × Location} (hway : t.wayTo dir = .ok r) :
    t.nodeAt? r.2 = some .directory :=
  h.nodeAt?_of_descend (h.start dir) hway

theorem passage_of_file {content : Bytes} {modified : Nat}
    (h : t.nodes.get? loc = some (.file content modified)) : t.passage loc = none := by
  rw [passage, h]
  rfl

theorem passage_of_none (h : t.nodes.get? loc = none) : t.passage loc = none := by
  rw [passage, h]
  rfl

theorem passage_of_ne (hdir : t.nodes.get? loc ≠ some .directory)
    (hlink : ∀ target, t.nodes.get? loc ≠ some (.link target)) : t.passage loc = none := by
  cases hnode : t.nodes.get? loc with
  | none => exact passage_of_none hnode
  | some n =>
    cases n with
    | directory => exact absurd hnode hdir
    | link target => exact absurd hnode (hlink target)
    | file content modified => exact passage_of_file hnode

section Draft

variable {r : Nat × Location} (htree : t.IsTree) (hway : t.wayTo dir = .ok r)
  (hfree : t.nodes.get? (r.2 ++ [name]) ≠ some .directory) (hplain : t.IsPlainName dir name)
  (content : Bytes) (now : Nat)

include hfree hway hplain

/-- A file that takes no place of a directory or a link is in nobody's way. -/
theorem passage_put_file (l : Location) :
    t.passage l = (t.put (r.2 ++ [name]) (.file content now)).passage l := by
  by_cases hl : l = r.2 ++ [name]
  · rw [hl, passage_of_ne hfree fun target => hplain r target hway,
      passage_of_file (t := t.put _ _) (by rw [get?_put, if_pos rfl])]
  · rw [passage, passage, get?_put, if_neg hl]

theorem wayTo_put_file : (t.put (r.2 ++ [name]) (.file content now)).wayTo dir = .ok r :=
  wayTo_congr (t := t) rfl (passage_put_file hway hfree hplain content now) hway

theorem isPlainName_put_file {other : Bytes} (hother : t.IsPlainName dir other) :
    (t.put (r.2 ++ [name]) (.file content now)).IsPlainName dir other := by
  intro r' target hway'
  rw [wayTo_put_file hway hfree hplain] at hway'
  rw [← Except.ok.inj hway', get?_put]
  split
  · simp
  · exact hother r target hway

include htree
omit hplain

theorem isTree_put_file : (t.put (r.2 ++ [name]) (.file content now)).IsTree :=
  htree.put (htree.nodeAt?_of_wayTo hway) fun h => absurd h hfree

end Draft

/-- What replacing a file leaves: the new content in its place, the draft gone, and all else
as it was. -/
structure Replaced (t t' : FileTree) (dir : Path) (r : Nat × Location) (draft name content : Bytes)
    (now : Nat) : Prop where
  isTree : t'.IsTree
  way : t.wayTo dir = .ok r
  way' : t'.wayTo dir = .ok r
  nul : dir.bytes.contains 0 = false
  get? : ∀ l, t'.nodes.get? l = if l = r.2 ++ [name] then some (.file content now)
    else if l = r.2 ++ [draft] then none else t.nodes.get? l

section Replace

variable {draft content : Bytes} {now : Nat} {t₁ : FileTree} (htree : t.IsTree)
  (hdraft : draft.IsFileName) (hname : name.IsFileName) (hne : draft ≠ name)
  (hplainDraft : t.IsPlainName dir draft) (hplain : t.IsPlainName dir name)

include htree hdraft hname hne hplainDraft hplain

/-- **A file is replaced by writing a draft and moving it into place**, if neither of the two
names is a link. -/
theorem replaced_of_run {t₂ : FileTree} (hwrite : t.write (dir.join ⟨draft⟩) content now = .ok t₁)
    (hrename : t₁.rename (dir.join ⟨draft⟩) (dir.join ⟨name⟩) = .ok t₂) :
    ∃ r, Replaced t t₂ dir r draft name content now := by
  obtain ⟨r, hnul, hway, hdir, rfl⟩ := exists_of_write hdraft hplainDraft hwrite
  have hlocs : r.2 ++ [name] ≠ r.2 ++ [draft] := by
    simpa using Ne.symm hne
  rcases rename_cases (isTree_put_file htree hway hdir content now) hdraft hname hne hnul
      (wayTo_put_file hway hdir hplainDraft content now)
      (isPlainName_put_file hway hdir hplainDraft content now hplain)
      (by rw [get?_put, if_pos rfl]) with
    ⟨-, hrefused⟩ | ⟨hplace, t', hmoved, hbase, hget⟩
  · rw [hrename] at hrefused
    cases hrefused
  obtain rfl : t' = t₂ := Except.ok.inj (hmoved.symm.trans hrename)
  rw [get?_put, if_neg hlocs] at hplace
  have hget' : ∀ l, t'.nodes.get? l = if l = r.2 ++ [name] then some (.file content now)
      else if l = r.2 ++ [draft] then none else t.nodes.get? l := by
    intro l
    rw [hget, get?_put]
    by_cases hl : l = r.2 ++ [draft] <;> simp [hl]
  have hsame : ∀ l, t.passage l = t'.passage l := by
    intro l
    by_cases hl : l = r.2 ++ [name]
    · rw [hl, passage_of_ne hplace fun target => hplain r target hway,
        passage_of_file (t := t') (by rw [hget', if_pos rfl])]
    · by_cases hl' : l = r.2 ++ [draft]
      · rw [hl', passage_of_ne hdir fun target => hplainDraft r target hway,
          passage_of_none (t := t') (by rw [hget', if_neg (hl' ▸ hl), if_pos rfl])]
      · rw [passage, passage, hget', if_neg hl, if_neg hl']
  refine ⟨r, ⟨htree.congr hbase hsame ?_, hway, wayTo_congr (t := t) hbase hsame hway, hnul, hget'⟩⟩
  intro loc m content' modified hn
  rw [hget'] at hn
  split at hn
  · rename_i hl
    rw [List.append_inj_left' hl rfl]
    exact htree.nodeAt?_of_wayTo hway
  · split at hn
    · cases hn
    · exact htree.parent hn

/-- A file can be replaced in a directory that is there, if neither of the two names is that
of a directory. -/
theorem exists_replacement {r : Nat × Location} (hnul : dir.bytes.contains 0 = false)
    (hway : t.wayTo dir = .ok r) (hfreeDraft : t.nodes.get? (r.2 ++ [draft]) ≠ some .directory)
    (hfree : t.nodes.get? (r.2 ++ [name]) ≠ some .directory) (content : Bytes) (now : Nat) :
    ∃ t₁ t₂, t.write (dir.join ⟨draft⟩) content now = .ok t₁ ∧
      t₁.rename (dir.join ⟨draft⟩) (dir.join ⟨name⟩) = .ok t₂ := by
  have hwrite := write_of_plain hdraft hplainDraft hnul hway hfreeDraft content now
  rcases rename_cases (isTree_put_file htree hway hfreeDraft content now) hdraft hname hne hnul
      (wayTo_put_file hway hfreeDraft hplainDraft content now)
      (isPlainName_put_file hway hfreeDraft hplainDraft content now hplain)
      (by rw [get?_put, if_pos rfl]) with
    ⟨htaken, -⟩ | ⟨-, t₂, hmoved, -⟩
  · rw [get?_put] at htaken
    split at htaken
    · cases htaken
    · exact absurd htaken hfree
  · exact ⟨_, t₂, hwrite, hmoved⟩

end Replace

/-- Replacing a file makes no link in its directory. -/
theorem Replaced.isPlainName {t' : FileTree} {r : Nat × Location} {draft content other : Bytes}
    {now : Nat} (h : Replaced t t' dir r draft name content now)
    (hplain : t.IsPlainName dir other) :
    t'.IsPlainName dir other := by
  intro r' target hway
  obtain rfl : r = r' := Except.ok.inj (h.way'.symm.trans hway)
  rw [h.get?]
  split
  · simp
  · split
    · simp
    · exact hplain r target h.way

/-- A file in a directory is read by its name. -/
theorem read_of_file {r : Nat × Location} {content : Bytes} {modified : Nat}
    (hname : name.IsFileName) (hnul : dir.bytes.contains 0 = false) (hway : t.wayTo dir = .ok r)
    (hfile : t.nodes.get? (r.2 ++ [name]) = some (.file content modified)) :
    t.read (dir.join ⟨name⟩) = .ok content := by
  have hplain : t.IsPlainName dir name := by
    intro r' target hway'
    rw [← Except.ok.inj (hway.symm.trans hway'), hfile]
    simp
  have hfind : t.find (dir.join ⟨name⟩) = .ok (r.2 ++ [name], .file content modified) := by
    rw [find, resolve_join_of_plain true hname hplain hnul hway, hfile]
    rfl
  rw [read, hfind]
  rfl

/-- Nothing is read in a directory to which there is no way. -/
theorem read_of_wayTo_error {fault : DiskFault} (hname : name.IsFileName)
    (hnul : dir.bytes.contains 0 = false) (hway : t.wayTo dir = .error fault) :
    t.read (dir.join ⟨name⟩) = .error fault := by
  rw [read, find, resolve_join t true dir hname, hnul, if_neg Bool.false_ne_true, hway]
  rfl

/-! ## 4. Paths that lead somewhere -/

theorem walk_of_resolve {follow : Bool} {p : Path} {place : Place}
    (h : t.resolve follow p = .ok place) :
    t.walk (follow || p.isDirectoryOnly) maxLinks (t.start p) p.hops = .ok place := by
  rw [resolve] at h
  split at h
  · cases h
  · split at h
    · cases h
    · split at h
      · rename_i hwalk
        split at h
        · cases h
        · rw [start, hwalk, ← h]
      · exact h

end FileTree
end AnalysisRunner
