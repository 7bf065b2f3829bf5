import Mathlib.Algebra.GroupWithZero.Nat
import Mathlib.Data.List.Perm.Subperm
import AnalysisRunner.Proofs.Watch.Reached

/-!
# Scanning with a stack

A scan can also be made without recursion.  The directories that are still to be read are kept on a
stack; a turn takes one of them, puts the directories in it on the stack, and looks at the rest.  A
disk tells the names in a directory in any order, so turns are a relation.

Two things are said about one turn.  What was found, together with what the directories on the stack
still have to give, stays the same but for its order (`Turn.promised_perm`).  And the stack gets
lighter (`Turn.weight_lt`): a directory weighs one more than there are nodes below it, and what lies
below the directories that it is replaced by lies below it, each node in one of them only.  Links
weigh nothing, so it does not matter where they lead.

Hence scanning comes to an end, in whatever order names are told, and it has found what the
recursive scan finds.
-/

namespace AnalysisRunner

/-! ## 1. The stack -/

/-- A scan under way: the directories to be read, the next one first, and what was found. -/
structure Scanning where
  pending : List Path
  found : List WatchEntry

namespace Scanning

/-- Meets a name in a directory: a directory that is not ignored is put on the stack, and anything
else that is accepted and leads to a file is found. -/
def meet (disk : FileTree) (filter : Filter) (root dir : Path) (s : Scanning)
    (child : Bytes × Node) :
    Scanning :=
  let path := dir.join ⟨child.1⟩
  match child.2 with
  | .directory => if filter.isIgnored path root then s else { s with pending := path :: s.pending }
  | _ =>
    if filter.accepts path root then
      match disk.look path with
      | .file signature => { s with found := s.found ++ [⟨path, some signature⟩] }
      | _ => s
    else s

/-- One turn: a directory is taken from the stack, and its names are met in some order.  One that
cannot be read is left out. -/
inductive Turn (disk : FileTree) (filter : Filter) (root : Path) : Scanning → Scanning → Prop
  | read {dir : Path} {rest : List Path} {found : List WatchEntry}
      {children order : List (Bytes × Node)}
      (hread : disk.readDirectory dir = .ok children) (horder : order.Perm children) :
      Turn disk filter root ⟨dir :: rest, found⟩
        (order.foldl (meet disk filter root dir) ⟨rest, found⟩)
  | skip {dir : Path} {rest : List Path} {found : List WatchEntry} {fault : DiskFault}
      (hread : disk.readDirectory dir = .error fault) :
      Turn disk filter root ⟨dir :: rest, found⟩ ⟨rest, found⟩

/-- So many turns, one after the other. -/
inductive Turns (disk : FileTree) (filter : Filter) (root : Path) : Nat → Scanning → Scanning → Prop
  | none (s : Scanning) : Turns disk filter root 0 s s
  | more {n : Nat} {s mid s' : Scanning} (first : Turn disk filter root s mid)
      (others : Turns disk filter root n mid s') : Turns disk filter root (n + 1) s s'

/-- What is found and what the directories on the stack have to give. -/
def promised (disk : FileTree) (filter : Filter) (root : Path) (s : Scanning) : List WatchEntry :=
  s.found ++ s.pending.flatMap (disk.scan filter root)

end Scanning

namespace FileTree

variable {disk : FileTree} {filter : Filter} {root dir : Path} {loc : Location} {fuel : Nat}

theorem readDirectory_eq_ok_iff {children : List (Bytes × Node)} :
    disk.readDirectory dir = .ok children ↔
      ∃ loc, disk.find dir = .ok (loc, .directory) ∧ children = disk.children loc := by
  unfold readDirectory
  cases hfind : disk.find dir with
  | error fault => simp [bind, Except.bind]
  | ok r =>
    obtain ⟨loc, n⟩ := r
    cases n with
    | directory => simp [bind, Except.bind, pure, Except.pure, eq_comm]
    | file content modified => simp [bind, Except.bind, throw, throwThe, MonadExceptOf.throw]
    | link target => simp [bind, Except.bind, throw, throwThe, MonadExceptOf.throw]

theorem scan_of_readDirectory_error {fault : DiskFault}
    (h : disk.readDirectory dir = .error fault) :
    disk.scan filter root dir = [] := by
  rw [scan]
  split
  · rename_i loc hfind
    cases h.symm.trans (readDirectory_eq_ok_iff.mpr ⟨loc, hfind, rfl⟩)
  · rfl

/-- More depth than the disk has makes no difference. -/
theorem scanUpTo_succ_eq (h : disk.height < loc.length + fuel) :
    disk.scanUpTo filter root (fuel + 1) loc dir = disk.scanUpTo filter root fuel loc dir := by
  induction fuel generalizing loc dir with
  | zero =>
    have hempty : disk.children loc = [] := by
      refine List.eq_nil_iff_forall_not_mem.mpr ?_
      rintro ⟨name, n⟩ hchild
      have hheight := length_le_height (mem_children_iff.mp hchild)
      rw [List.length_append, List.length_singleton] at hheight
      omega
    rw [scanUpTo_succ, hempty]
    rfl
  | succ fuel ih =>
    have hdeeper : ∀ name path, disk.scanUpTo filter root (fuel + 1) (loc ++ [name]) path =
        disk.scanUpTo filter root fuel (loc ++ [name]) path := by
      intro name path
      refine ih ?_
      rw [List.length_append, List.length_singleton]
      omega
    rw [scanUpTo_succ, scanUpTo_succ disk filter root fuel]
    refine List.flatMap_congr fun child _ => ?_
    simp only [scanChild, hdeeper]

/-- **A scan is made of scans of the directories inside.** -/
theorem scan_eq_flatMap (hnamed : disk.IsNamed) (hdir : disk.find dir = .ok (loc, .directory)) :
    disk.scan filter root dir = (disk.children loc).flatMap
      (disk.scanChild filter root (fun _ path => disk.scan filter root path) loc dir) := by
  rw [scan_eq_scanUpTo filter root hdir, scanUpTo_succ]
  refine List.flatMap_congr ?_
  rintro ⟨name, n⟩ hchild
  have hn := mem_children_iff.mp hchild
  cases n with
  | file content modified => rfl
  | link target => rfl
  | directory =>
    have hinside : disk.scanUpTo filter root disk.height (loc ++ [name]) (dir.join ⟨name⟩) =
        disk.scan filter root (dir.join ⟨name⟩) := by
      have hname := hnamed _ _ hn name (by simp)
      rw [scan_eq_scanUpTo filter root (find_join hname hdir hn (by simp)), scanUpTo_succ_eq]
      rw [List.length_append, List.length_singleton]
      omega
    simp only [scanChild, hinside]

/-! ## 2. Weights -/

/-- The locations below a location. -/
def below (disk : FileTree) (loc : Location) : List Location :=
  disk.nodes.keys.filter fun key => decide (loc <+: key ∧ key ≠ loc)

/-- How much a path on the stack weighs: one, and one for each node below the directory that it
leads to. -/
def weight (disk : FileTree) (p : Path) : Nat :=
  match disk.find p with
  | .ok (loc, .directory) => (disk.below loc).length + 1
  | _ => 1

theorem weight_of_find (hdir : disk.find dir = .ok (loc, .directory)) :
    disk.weight dir = (disk.below loc).length + 1 := by
  rw [weight, hdir]

theorem weight_pos (disk : FileTree) (p : Path) : 0 < disk.weight p := by
  unfold weight
  split <;> exact Nat.succ_pos _

theorem mem_below_iff {key : Location} :
    key ∈ disk.below loc ↔ key ∈ disk.nodes.keys ∧ loc <+: key ∧ key ≠ loc := by
  rw [below, List.mem_filter, decide_eq_true_iff]

theorem length_below_le (disk : FileTree) (loc : Location) :
    (disk.below loc).length ≤ disk.nodes.size := by
  have hkeys : disk.nodes.keys.length = disk.nodes.size := by
    rw [Table.keys, List.length_map, Table.size]
  exact hkeys ▸ List.length_filter_le ..

/-- **The names in a directory share out what is below it**: each comes with what is below it, and
nothing is below two of them. -/
theorem sum_below_le {children : List (Bytes × Node)}
    (hchildren : children.Perm (disk.children loc)) :
    (children.map fun child => (disk.below (loc ++ [child.1])).length + 1).sum ≤
      (disk.below loc).length := by
  have hbegins : ∀ {part key : Location}, key ∈ part :: disk.below part → part <+: key := by
    intro part key hkey
    rcases List.mem_cons.mp hkey with rfl | hkey
    · exact List.prefix_rfl
    · exact (mem_below_iff.mp hkey).2.1
  have hnodup : (children.flatMap fun child =>
      (loc ++ [child.1]) :: disk.below (loc ++ [child.1])).Nodup := by
    refine List.nodup_flatMap.mpr ⟨?_, ?_⟩
    · rintro child -
      exact List.nodup_cons.mpr ⟨fun hself => (mem_below_iff.mp hself).2.2 rfl,
        disk.nodes.nodup.filter _⟩
    · have hnames := (hchildren.map Prod.fst).nodup_iff.mpr (disk.nodup_children loc)
      refine (List.pairwise_map.mp hnames).imp ?_
      intro child child' hne key hkey hkey'
      obtain ⟨rest, rfl⟩ := hbegins hkey
      obtain ⟨rest', hsame⟩ := hbegins hkey'
      simp only [List.append_assoc, List.append_cancel_left_eq, List.singleton_append,
        List.cons.injEq] at hsame
      exact hne hsame.1.symm
  have hsubset : (children.flatMap fun child =>
      (loc ++ [child.1]) :: disk.below (loc ++ [child.1])) ⊆ disk.below loc := by
    intro key hkey
    obtain ⟨⟨name, n⟩, hchild, hkey⟩ := List.mem_flatMap.mp hkey
    have hn := mem_children_iff.mp (hchildren.mem_iff.mp hchild)
    have hpresent : key ∈ disk.nodes.keys := by
      rcases List.mem_cons.mp hkey with rfl | hkey
      · exact List.mem_map_of_mem (f := Prod.fst) (Table.get?_eq_some_iff.mp hn)
      · exact (mem_below_iff.mp hkey).1
    obtain ⟨rest, rfl⟩ := hbegins hkey
    exact mem_below_iff.mpr ⟨hpresent, ⟨name :: rest, by simp⟩, by simp⟩
  calc
    _ = (children.flatMap fun child =>
        (loc ++ [child.1]) :: disk.below (loc ++ [child.1])).length := by
      simp only [List.length_flatMap, List.length_cons]
    _ ≤ (disk.below loc).length := (hnodup.subperm hsubset).length_le

end FileTree

namespace Scanning

variable {disk : FileTree} {filter : Filter} {root dir : Path} {loc : Location}
  {s s' : Scanning} {n : Nat}

/-- How much a stack weighs. -/
def weight (disk : FileTree) (s : Scanning) : Nat :=
  (s.pending.map disk.weight).sum

theorem weight_cons (disk : FileTree) (dir : Path) (rest : List Path) (found : List WatchEntry) :
    weight disk ⟨dir :: rest, found⟩ = disk.weight dir + weight disk ⟨rest, found⟩ := by
  rw [weight, weight, List.map_cons, List.sum_cons]

/-! ## 3. One turn -/

/-- **A name is met in two ways**: a directory is put on the stack, or what the name has to give is
found at once. -/
theorem meet_cases (disk : FileTree) (filter : Filter) (root dir : Path)
    (loc : Location) (s : Scanning)
    (child : Bytes × Node) (inside : Location → Path → List WatchEntry) :
    (child.2 = .directory ∧
        meet disk filter root dir s child = { s with pending := dir.join ⟨child.1⟩ :: s.pending } ∧
        disk.scanChild filter root inside loc dir child =
          inside (loc ++ [child.1]) (dir.join ⟨child.1⟩)) ∨
      meet disk filter root dir s child =
        { s with found := s.found ++ disk.scanChild filter root inside loc dir child } := by
  obtain ⟨name, n⟩ := child
  unfold meet FileTree.scanChild
  cases n
  case directory =>
    cases hignored : filter.isIgnored (dir.join ⟨name⟩) root with
    | true => exact .inr (by simp [hignored])
    | false => exact .inl (by simp [hignored])
  case file | link =>
    refine .inr ?_
    dsimp only
    split
    · cases disk.look (dir.join ⟨name⟩) <;> simp
    · simp

theorem promised_meet (loc : Location) (s : Scanning) (child : Bytes × Node) :
    (promised disk filter root (meet disk filter root dir s child)).Perm
      (promised disk filter root s ++
        disk.scanChild filter root (fun _ path => disk.scan filter root path) loc dir child) := by
  rcases meet_cases disk filter root dir loc s child fun _ path => disk.scan filter root path with
    ⟨-, hmeet, hchild⟩ | hmeet
  · rw [hmeet, hchild, promised, promised, List.flatMap_cons, List.append_assoc]
    exact List.perm_append_comm.append_left _
  · rw [hmeet, promised, promised, List.append_assoc, List.append_assoc]
    exact List.perm_append_comm.append_left _

theorem promised_foldl_meet (loc : Location) (s : Scanning) (order : List (Bytes × Node)) :
    (promised disk filter root (order.foldl (meet disk filter root dir) s)).Perm
      (promised disk filter root s ++ order.flatMap
        (disk.scanChild filter root (fun _ path => disk.scan filter root path) loc dir)) := by
  induction order generalizing s with
  | nil => simp
  | cons child order ih =>
    rw [List.foldl_cons, List.flatMap_cons, ← List.append_assoc]
    exact (ih _).trans ((promised_meet loc s child).append_right _)

/-- **What is promised stays the same with every turn**, but for its order. -/
theorem Turn.promised_perm (hnamed : disk.IsNamed) (h : Turn disk filter root s s') :
    (promised disk filter root s').Perm (promised disk filter root s) := by
  cases h with
  | @read dir rest found children order hread horder =>
    obtain ⟨loc, hdir, rfl⟩ := FileTree.readDirectory_eq_ok_iff.mp hread
    refine (promised_foldl_meet loc _ _).trans ?_
    rw [promised, promised, List.flatMap_cons,
      FileTree.scan_eq_flatMap hnamed hdir, List.append_assoc]
    exact (List.perm_append_comm.trans ((horder.flatMap_right _).append_right _)).append_left _
  | @skip dir rest found fault hread =>
    rw [promised, promised, List.flatMap_cons,
      FileTree.scan_of_readDirectory_error hread, List.nil_append]

theorem weight_meet_le (filter : Filter) (root : Path) (hnamed : disk.IsNamed)
    (hdir : disk.find dir = .ok (loc, .directory)) (s : Scanning) {child : Bytes × Node}
    (hchild : child ∈ disk.children loc) :
    (meet disk filter root dir s child).weight disk ≤
      s.weight disk + ((disk.below (loc ++ [child.1])).length + 1) := by
  rcases meet_cases disk filter root dir loc s child fun _ _ => [] with ⟨hn, hmeet, -⟩ | hmeet
  · have hpresent : disk.nodes.get? (loc ++ [child.1]) = some .directory := by
      rw [← hn]
      exact FileTree.mem_children_iff.mp hchild
    have hpath := FileTree.find_join (hnamed _ _ hpresent child.1 (by simp)) hdir hpresent (by simp)
    rw [hmeet, weight_cons, FileTree.weight_of_find hpath]
    exact Nat.le_of_eq (Nat.add_comm ..)
  · rw [hmeet]
    exact Nat.le_add_right ..

theorem weight_foldl_meet_le (filter : Filter) (root : Path) (hnamed : disk.IsNamed)
    (hdir : disk.find dir = .ok (loc, .directory)) (s : Scanning) {order : List (Bytes × Node)}
    (horder : ∀ child ∈ order, child ∈ disk.children loc) :
    (order.foldl (meet disk filter root dir) s).weight disk ≤
      s.weight disk + (order.map fun child => (disk.below (loc ++ [child.1])).length + 1).sum := by
  induction order generalizing s with
  | nil => exact Nat.le_refl _
  | cons child order ih =>
    have hfirst := weight_meet_le filter root hnamed hdir s (horder child (List.mem_cons_self ..))
    have hothers := ih (meet disk filter root dir s child) fun c hc =>
      horder c (List.mem_cons_of_mem _ hc)
    rw [List.foldl_cons, List.map_cons, List.sum_cons]
    omega

/-- **The stack gets lighter with every turn.** -/
theorem Turn.weight_lt (hnamed : disk.IsNamed) (h : Turn disk filter root s s') :
    s'.weight disk < s.weight disk := by
  cases h with
  | @read dir rest found children order hread horder =>
    obtain ⟨loc, hdir, rfl⟩ := FileTree.readDirectory_eq_ok_iff.mp hread
    have hmet := weight_foldl_meet_le filter root hnamed hdir ⟨rest, found⟩
      fun child hchild => horder.mem_iff.mp hchild
    have hshare := FileTree.sum_below_le horder
    rw [weight_cons, FileTree.weight_of_find hdir]
    omega
  | @skip dir rest found fault hread =>
    rw [weight_cons]
    exact Nat.lt_add_of_pos_left (disk.weight_pos dir)

theorem exists_turn (disk : FileTree) (filter : Filter) (root : Path) (h : s.pending ≠ []) :
    ∃ next, Turn disk filter root s next := by
  obtain ⟨pending, found⟩ := s
  obtain ⟨dir, rest, rfl⟩ := List.exists_cons_of_ne_nil h
  cases hread : disk.readDirectory dir with
  | ok children => exact ⟨_, .read hread (.refl _)⟩
  | error fault => exact ⟨_, .skip hread⟩

/-! ## 4. All turns -/

theorem Turns.promised_perm (hnamed : disk.IsNamed) (h : Turns disk filter root n s s') :
    (promised disk filter root s').Perm (promised disk filter root s) := by
  induction h with
  | none s => exact .refl _
  | more first _ ih => exact ih.trans (first.promised_perm hnamed)

theorem Turns.add_weight_le (hnamed : disk.IsNamed) (h : Turns disk filter root n s s') :
    n + s'.weight disk ≤ s.weight disk := by
  induction h with
  | none s => exact Nat.le_of_eq (Nat.zero_add _)
  | more first _ ih =>
    have hfirst := first.weight_lt hnamed
    omega

/-- From any stack on, turns come to an end. -/
theorem exists_turns_to_end (filter : Filter) (root : Path) (hnamed : disk.IsNamed) (s : Scanning) :
    ∃ n found, Turns disk filter root n s ⟨[], found⟩ := by
  by_cases hend : s.pending = []
  · exact ⟨0, s.found, hend ▸ .none s⟩
  · obtain ⟨next, hturn⟩ := exists_turn disk filter root hend
    have hlighter := hturn.weight_lt hnamed
    obtain ⟨n, found, hothers⟩ := exists_turns_to_end filter root hnamed next
    exact ⟨n + 1, found, .more hturn hothers⟩
termination_by s.weight disk

/-- **A scan comes to an end and has then found, each once, the accepted files that real directories
lead to, none of them ignored.** -/
theorem scan_ends_with_what_is_reached (hnamed : disk.IsNamed)
    (hdir : disk.find dir = .ok (loc, .directory)) (filter : Filter) (root : Path) :
    (∃ n found, Turns disk filter root n ⟨[dir], []⟩ ⟨[], found⟩) ∧
    (∀ n s, Turns disk filter root n ⟨[dir], []⟩ s →
      n ≤ disk.nodes.size + 1 ∧ (s.pending ≠ [] → ∃ next, Turn disk filter root s next) ∧
        (s.pending = [] → s.found.Perm (disk.scan filter root dir))) ∧
    ((disk.scan filter root dir).map fun e => e.path.components).Nodup ∧
    ∀ e, e ∈ disk.scan filter root dir ↔ ∃ below, disk.Finds filter root dir loc below e := by
  refine ⟨exists_turns_to_end filter root hnamed _, ?_, FileTree.nodup_scan hnamed filter root dir,
    fun e => FileTree.mem_scan_iff hdir⟩
  intro n s hturns
  refine ⟨?_, exists_turn disk filter root, ?_⟩
  · have hweight := hturns.add_weight_le hnamed
    have hempty : weight disk ⟨[], []⟩ = 0 := rfl
    rw [weight_cons, FileTree.weight_of_find hdir, hempty] at hweight
    have hsize := disk.length_below_le loc
    omega
  · intro hend
    have hperm := hturns.promised_perm hnamed
    simpa [promised, hend] using hperm

/-! ## 5. Links that lead back

At the root of the disk there are the file `b`, a link `a.sol` to it, and a link `c.sol` to the root
itself. -/

def loopDisk : FileTree :=
  ((FileTree.empty.put [Bytes.ofText "b"] (.file [1, 2, 3] 5)).put [Bytes.ofText "a.sol"]
    (.link (.ofText "b"))).put [Bytes.ofText "c.sol"] (.link (.ofText "/"))

theorem isNamed_loopDisk : loopDisk.IsNamed := by
  have hkeys : ∀ key ∈ loopDisk.nodes.keys, ∀ name ∈ key,
      (Path.component? name = some (.name name) ∧ slash ∉ name) ∧ 0 ∉ name ∧
        name.length ≤ FileTree.maxNameLength := by
    decide
  intro loc n hn name hname
  have hkey := List.mem_map_of_mem (f := Prod.fst) (Table.get?_eq_some_iff.mp hn)
  obtain ⟨hinner, hnul, hshort⟩ := hkeys loc hkey name hname
  exact ⟨hinner, hnul, hshort⟩

theorem find_root_loopDisk : loopDisk.find (.ofText "/") = .ok ([], .directory) := by
  have hhops : (Path.ofText "/").hops = [] := by decide
  refine FileTree.find_of_walk (by decide) (by decide) (.inr rfl) ?_
  rw [hhops, FileTree.walk]
  rfl

theorem link_loopDisk :
    loopDisk.nodes.get? ([] ++ [Bytes.ofText "a.sol"]) = some (.link (.ofText "b")) := by
  decide

/-- The link to the file leads there. -/
theorem look_link_loopDisk : loopDisk.look (.ofText "/a.sol") = .file ⟨5, 3⟩ := by
  have hfile : loopDisk.nodes.get? ([] ++ [Bytes.ofText "b"]) =
      some (.file [1, 2, 3] 5) := by decide
  have hhops : (Path.ofText "/a.sol").hops = [.down (Bytes.ofText "a.sol")] := by decide
  have htarget : (Path.ofText "b").hops = [.down (Bytes.ofText "b")] := by decide
  have hplain : ∀ target, loopDisk.nodes.get? ([] ++ [Bytes.ofText "b"]) ≠ some (.link target) := by
    rw [hfile]
    simp
  have hwalk : loopDisk.walk true (39 + 1) [] [.down (Bytes.ofText "a.sol")] =
      .ok (.node [Bytes.ofText "b"] (.file [1, 2, 3] 5)) := by
    rw [FileTree.walk_link (isNamed_loopDisk _ _ link_loopDisk _ (by simp)) link_loopDisk, htarget]
    refine (congrArg _
      (loopDisk.walk_name true 39 [] (isNamed_loopDisk _ _ hfile _ (by simp)) hplain)).trans ?_
    rw [hfile]
    rfl
  rw [← hhops] at hwalk
  rw [FileTree.look, FileTree.find_of_walk (by decide) (by decide) (.inl (by decide)) hwalk]
  rfl

/-- The other link leads to a directory. -/
theorem look_loop_loopDisk : loopDisk.look (.ofText "/c.sol") = .directory := by
  have hlink : loopDisk.nodes.get? ([] ++ [Bytes.ofText "c.sol"]) =
      some (.link (.ofText "/")) := by decide
  have hhops : (Path.ofText "/c.sol").hops = [.down (Bytes.ofText "c.sol")] := by decide
  have htarget : (Path.ofText "/").hops = [] := by decide
  have hwalk : loopDisk.walk true (39 + 1) [] [.down (Bytes.ofText "c.sol")] =
      .ok (.node [] .directory) := by
    rw [FileTree.walk_link (isNamed_loopDisk _ _ hlink _ (by simp)) hlink, htarget, FileTree.walk]
    rfl
  rw [← hhops] at hwalk
  exact FileTree.look_of_walk (by decide) (by decide) hwalk

/-- The scan ends, and it has found the file through the link and nothing behind the other one. -/
theorem scan_ends_with_what_is_reached_linked :
    loopDisk.IsNamed ∧ loopDisk.find (.ofText "/") = .ok ([], .directory) ∧
      ∃ n found, Turns loopDisk ⟨["sol"], []⟩ (.ofText "/") n ⟨[.ofText "/"], []⟩ ⟨[], found⟩ ∧
        ⟨.ofText "/a.sol", some ⟨5, 3⟩⟩ ∈ found ∧
        ∀ e ∈ found, e.path.components ≠ (Path.ofText "/c.sol").components := by
  obtain ⟨⟨n, found, hturns⟩, hruns, -, hfinds⟩ :=
    scan_ends_with_what_is_reached isNamed_loopDisk find_root_loopDisk ⟨["sol"], []⟩ (.ofText "/")
  have hperm := (hruns n _ hturns).2.2 rfl
  refine ⟨isNamed_loopDisk, find_root_loopDisk, n, found, hturns, ?_, ?_⟩
  · have hpath : (Path.ofText "/").join ⟨Bytes.ofText "a.sol"⟩ = .ofText "/a.sol" := by decide
    refine hperm.mem_iff.mpr ((hfinds _).mpr ⟨[Bytes.ofText "a.sol"], ?_⟩)
    refine FileTree.finds_singleton_iff.mpr ⟨_, link_loopDisk, by simp, by decide, ⟨5, 3⟩, ?_, ?_⟩
    · rw [hpath, look_link_loopDisk]
    · rw [hpath]
  · intro e he hsame
    obtain ⟨below, hbelow⟩ := (hfinds e).mp (hperm.mem_iff.mp he)
    rw [hbelow.components isNamed_loopDisk] at hsame
    have hnames : below = [Bytes.ofText "c.sol"] := by
      have hmap : below.map Component.name = [Bytes.ofText "c.sol"].map Component.name :=
        List.append_cancel_left hsame
      exact (List.map_inj_right fun a b => Component.name.inj).mp hmap
    rw [hnames] at hbelow
    obtain ⟨n, -, -, -, s, hlook, -⟩ := FileTree.finds_singleton_iff.mp hbelow
    have hpath : (Path.ofText "/").join ⟨Bytes.ofText "c.sol"⟩ = .ofText "/c.sol" := by decide
    rw [hpath, look_loop_loopDisk] at hlook
    cases hlook

end Scanning
end AnalysisRunner
