import AnalysisRunner.Proofs.FileTree.Location

/-!
# What a scan finds

A scan goes down into the directories that are not ignored and finds the files that are
accepted (`mem_scanUpTo_succ`).  What it finds is seen at that moment (`look_of_mem_scan`).

On a disk without links every file below the directory has a location below it.  The scan finds
the file if the file is accepted and the scan gets there: no directory in between is ignored
(`mem_scan_iff`).  It never stops for lack of depth, because the disk is not higher than the
bound.
-/

namespace AnalysisRunner

/-- Whether a scan that goes down from a location gets to what is below: no directory in
between is ignored. -/
def Filter.Reaches (f : Filter) (root : Path) (loc below : Location) : Prop :=
  ∀ mid rest, below = mid ++ rest → mid ≠ [] → rest ≠ [] →
    f.isIgnored (loc ++ mid).path root = false

namespace FileTree

variable {disk : FileTree} {filter : Filter} {root dir : Path} {loc : Location} {e : WatchEntry}

/-! ## 1. One directory -/

/-- What a scan makes of a name in a directory,
if it finds `inside` what is in a directory there. -/
def scanChild (disk : FileTree) (filter : Filter) (root : Path)
    (inside : Location → Path → List WatchEntry) (loc : Location) (dir : Path)
    (child : Bytes × Node) :
    List WatchEntry :=
  let path := dir.join ⟨child.1⟩
  match child.2 with
  | .directory => if filter.isIgnored path root then [] else inside (loc ++ [child.1]) path
  | _ =>
    if filter.accepts path root then
      match disk.look path with
      | .file signature => [⟨path, some signature⟩]
      | _ => []
    else []

theorem scanUpTo_succ (disk : FileTree) (filter : Filter) (root : Path)
    (fuel : Nat) (loc : Location)
    (dir : Path) : disk.scanUpTo filter root (fuel + 1) loc dir =
      (disk.children loc).flatMap
        (disk.scanChild filter root (disk.scanUpTo filter root fuel) loc dir) :=
  rfl

theorem mem_scanChild_iff {inside : Location → Path → List WatchEntry}
    {name : Bytes} {node : Node} :
    e ∈ disk.scanChild filter root inside loc dir (name, node) ↔
      node = .directory ∧ filter.isIgnored (dir.join ⟨name⟩) root = false ∧
          e ∈ inside (loc ++ [name]) (dir.join ⟨name⟩) ∨
        node ≠ .directory ∧ filter.accepts (dir.join ⟨name⟩) root = true ∧
          ∃ s, disk.look (dir.join ⟨name⟩) = .file s ∧ e = ⟨dir.join ⟨name⟩, some s⟩ := by
  unfold scanChild
  cases node with
  | directory => simp
  | file content modified => cases hlook : disk.look (dir.join ⟨name⟩) <;> simp [hlook]
  | link target => cases hlook : disk.look (dir.join ⟨name⟩) <;> simp [hlook]

theorem mem_scanUpTo_succ {fuel : Nat} :
    e ∈ disk.scanUpTo filter root (fuel + 1) loc dir ↔
      ∃ name node, (name, node) ∈ disk.children loc ∧
        (node = .directory ∧ filter.isIgnored (dir.join ⟨name⟩) root = false ∧
            e ∈ disk.scanUpTo filter root fuel (loc ++ [name]) (dir.join ⟨name⟩) ∨
          node ≠ .directory ∧ filter.accepts (dir.join ⟨name⟩) root = true ∧
            ∃ s, disk.look (dir.join ⟨name⟩) = .file s ∧ e = ⟨dir.join ⟨name⟩, some s⟩) := by
  rw [scanUpTo_succ, List.mem_flatMap, Prod.exists]
  exact exists_congr fun name => exists_congr fun node => and_congr_right fun _ => mem_scanChild_iff

/-- What a scan finds is a file, and it is seen. -/
theorem look_of_mem_scan (h : e ∈ disk.scan filter root dir) :
    ∃ s, e.signature = some s ∧ disk.look e.path = .file s := by
  have hfuel : ∀ (fuel : Nat) (loc : Location) (dir : Path),
      e ∈ disk.scanUpTo filter root fuel loc dir →
        ∃ s, e.signature = some s ∧ disk.look e.path = .file s := by
    intro fuel
    induction fuel with
    | zero => exact fun _ _ he => nomatch he
    | succ fuel ih =>
      intro loc dir he
      obtain ⟨name, node, -, ⟨-, -, he⟩ | ⟨-, -, s, hlook, rfl⟩⟩ := mem_scanUpTo_succ.mp he
      · exact ih _ _ he
      · exact ⟨s, rfl, hlook⟩
  rw [scan] at h
  split at h
  · exact hfuel _ _ _ h
  · cases h

/-! ## 2. All directories below -/

end FileTree

theorem Filter.reaches_singleton (f : Filter) (root : Path) (loc : Location) (name : Bytes) :
    f.Reaches root loc [name] := by
  intro mid rest hsplit hmid hrest
  have hlength := congrArg List.length hsplit
  rw [List.length_append, List.length_singleton] at hlength
  have hmid' := List.length_pos_iff.mpr hmid
  have hrest' := List.length_pos_iff.mpr hrest
  omega

theorem Filter.reaches_cons_iff {f : Filter} {root : Path} {loc : Location} {name : Bytes}
    {below : Location} (hbelow : below ≠ []) :
    f.Reaches root loc (name :: below) ↔
      f.isIgnored (loc ++ [name]).path root = false ∧ f.Reaches root (loc ++ [name]) below := by
  constructor
  · intro h
    refine ⟨h [name] below rfl (List.cons_ne_nil _ _) hbelow, ?_⟩
    intro mid rest hsplit hmid hrest
    rw [List.append_assoc]
    exact h (name :: mid) rest (by rw [hsplit]; rfl) (List.cons_ne_nil _ _) hrest
  · rintro ⟨hfirst, hothers⟩ mid rest hsplit hmid hrest
    cases mid with
    | nil => exact absurd rfl hmid
    | cons name' mid =>
      obtain ⟨rfl, rfl⟩ := List.cons.inj hsplit
      by_cases hnil : mid = []
      · rw [hnil]
        exact hfirst
      · have hlater := hothers mid rest rfl hnil hrest
        rwa [List.append_assoc] at hlater

namespace FileTree

variable {disk : FileTree} {filter : Filter} {root dir : Path} {loc : Location} {e : WatchEntry}

theorem IsLinkless.look_path (h : disk.IsLinkless) {content : Bytes}
    {modified : Nat} (hne : loc ≠ [])
    (hfile : disk.nodes.get? loc = some (.file content modified)) :
    disk.look loc.path = .file ⟨modified, content.length⟩ := by
  have hnode : disk.nodeAt? loc = some (.file content modified) := by
    rwa [nodeAt?, if_neg hne]
  rw [look, h.find_path hnode]

/-- The files that a scan finds within a depth. -/
theorem IsLinkless.mem_scanUpTo_iff (h : disk.IsLinkless) (hloc : loc.IsNamed) {fuel : Nat} :
    e ∈ disk.scanUpTo filter root fuel loc loc.path ↔
      ∃ below content modified, below ≠ [] ∧ below.length ≤ fuel ∧
        disk.nodes.get? (loc ++ below) = some (.file content modified) ∧
        filter.Reaches root loc below ∧ filter.accepts (loc ++ below).path root = true ∧
        e = ⟨(loc ++ below).path, some ⟨modified, content.length⟩⟩ := by
  induction fuel generalizing loc e with
  | zero =>
    constructor
    · intro he
      cases he
    · rintro ⟨below, content, modified, hne, hlength, -⟩
      exact absurd (List.length_eq_zero_iff.mp (Nat.le_zero.mp hlength)) hne
  | succ fuel ih =>
    rw [mem_scanUpTo_succ]
    constructor
    · rintro ⟨name, node, hchild, hfound⟩
      rw [mem_children_iff] at hchild
      have hnamed := h.named hchild
      rw [← Location.path_concat hloc (hnamed name (by simp))] at hfound
      rcases hfound with ⟨rfl, hignored, he⟩ | ⟨hnode, haccepts, s, hlook, rfl⟩
      · obtain ⟨below, content, modified, hne, hlength, hfile, hreaches, haccepts, rfl⟩ :=
          (ih hnamed).mp he
        rw [List.append_assoc, List.singleton_append] at hfile haccepts ⊢
        exact ⟨name :: below, content, modified, List.cons_ne_nil _ _,
          Nat.succ_le_succ hlength, hfile,
          (Filter.reaches_cons_iff hne).mpr ⟨hignored, hreaches⟩, haccepts, rfl⟩
      · cases node with
        | directory => exact absurd rfl hnode
        | link target => exact absurd hchild h.noLink
        | file content modified =>
          rw [h.look_path (by simp) hchild] at hlook
          obtain rfl := Sight.file.inj hlook
          exact ⟨[name], content, modified, List.cons_ne_nil _ _, Nat.le_add_left .., hchild,
            filter.reaches_singleton root loc name, haccepts, rfl⟩
    · rintro ⟨below, content, modified, hne, hlength, hfile, hreaches, haccepts, rfl⟩
      obtain ⟨name, rest, rfl⟩ := List.exists_cons_of_ne_nil hne
      have hjoin := Location.path_concat hloc (h.named hfile name (by simp))
      by_cases hrest : rest = []
      · subst hrest
        refine ⟨name, _, mem_children_iff.mpr hfile, .inr ⟨by simp, ?_⟩⟩
        rw [← hjoin]
        exact ⟨haccepts, _, h.look_path (by simp) hfile, rfl⟩
      · obtain ⟨hignored, hreaches⟩ := (Filter.reaches_cons_iff hrest).mp hreaches
        rw [← List.singleton_append, ← List.append_assoc] at hfile haccepts ⊢
        have hdir := h.isTree.above rest hrest hfile
        rw [nodeAt?_concat] at hdir
        refine ⟨name, .directory, mem_children_iff.mpr hdir, .inl ⟨rfl, ?_⟩⟩
        rw [← hjoin, ih (h.named hdir)]
        exact ⟨hignored, rest, content, modified, hrest,
          Nat.le_of_succ_le_succ hlength, hfile, hreaches, haccepts, rfl⟩

/-- **A scan finds the files below that are accepted and that it reaches.** -/
theorem IsLinkless.mem_scan_iff (h : disk.IsLinkless) (hdir : disk.nodeAt? loc = some .directory) :
    e ∈ disk.scan filter root loc.path ↔
      ∃ below content modified, below ≠ [] ∧
        disk.nodes.get? (loc ++ below) = some (.file content modified) ∧
        filter.Reaches root loc below ∧ filter.accepts (loc ++ below).path root = true ∧
        e = ⟨(loc ++ below).path, some ⟨modified, content.length⟩⟩ := by
  have hscan : disk.scan filter root loc.path =
      disk.scanUpTo filter root (disk.height + 1) loc loc.path := by
    rw [scan, h.find_path hdir]
  rw [hscan, h.mem_scanUpTo_iff (h.isNamed hdir)]
  refine exists_congr fun below => exists_congr fun content => exists_congr fun modified =>
    and_congr_right fun _ => ⟨And.right, fun hfound => ⟨?_, hfound⟩⟩
  have hheight := length_le_height hfound.1
  rw [List.length_append] at hheight
  omega

end FileTree
end AnalysisRunner
