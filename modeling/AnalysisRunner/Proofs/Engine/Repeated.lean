import Mathlib.Data.Finset.Card
import AnalysisRunner.Proofs.Engine.Ways

/-!
# What was found once is served the next time

If files are analyzed twice and nothing changes in between, the second analysis finds in the cache
what the first one found.  Two things could go wrong.  Results that are put in might push out one
another, or those that were served; they do not as long as there is room for all keys at once
(`Cache.HasRoomFor`), whatever the ages are, and then putting a result in is putting it in and
nothing else (`HasRoomFor.set_eq`).  And a result could be too old at once; it is not if results
live for at least one tick of the clock.

So what the first analysis does to the cache can be said file by file (`get?_engineFor`): the key
of a file holds the new entry if there is one, and otherwise what it held.
-/

namespace AnalysisRunner

/-! ## 1. Room -/

theorem Table.size_le_card {κ : Type u} {α : Type v} [DecidableEq κ] {t : Table κ α} {keys : List κ}
    (h : ∀ k ∈ t.keys, k ∈ keys) : t.size ≤ keys.toFinset.card := by
  rw [size_eq, ← List.toFinset_card_of_nodup (show t.keys.Nodup from t.nodup)]
  refine Finset.card_le_card fun k hk => ?_
  exact List.mem_toFinset.mpr (h k (List.mem_toFinset.mp hk))

namespace Cache

variable {c c' c'' : Cache} {keys : List String} {now : UInt64}

/-- Whether a cache has room for some keys beside those that it holds. -/
def HasRoomFor (c : Cache) (keys : List String) : Prop :=
  (c.entries.keys ++ keys).toFinset.card ≤ c.options.capacity

instance (c : Cache) (keys : List String) : Decidable (c.HasRoomFor keys) :=
  inferInstanceAs (Decidable (_ ≤ _))

/-- Whether a cache has lost no key, has got no key but some of these, and has evicted nothing. -/
structure Grows (keys : List String) (c c' : Cache) : Prop where
  options : c'.options = c.options
  evictions : c'.evictions = c.evictions
  kept : ∀ k ∈ c.entries.keys, k ∈ c'.entries.keys
  added : ∀ k ∈ c'.entries.keys, k ∈ c.entries.keys ∨ k ∈ keys

theorem Grows.refl (keys : List String) (c : Cache) : Grows keys c c :=
  ⟨rfl, rfl, fun _ hk => hk, fun _ hk => .inl hk⟩

theorem Grows.trans (h : Grows keys c c') (h' : Grows keys c' c'') : Grows keys c c'' where
  options := h'.options.trans h.options
  evictions := h'.evictions.trans h.evictions
  kept k hk := h'.kept k (h.kept k hk)
  added k hk := (h'.added k hk).elim (h.added k) .inr

theorem grows_put (c : Cache) {e : Entry} (he : e.key ∈ keys) : Grows keys c (c.put e) := by
  refine ⟨rfl, rfl, fun k hk => ?_, fun k hk => ?_⟩
  · obtain ⟨f, hf⟩ := Table.mem_keys_iff.mp hk
    rw [Table.mem_keys_iff]
    by_cases hsame : k = e.key
    · exact ⟨e, by rw [get?_put, if_pos hsame]⟩
    · exact ⟨f, by rw [get?_put, if_neg hsame, hf]⟩
  · obtain ⟨f, hf⟩ := Table.mem_keys_iff.mp hk
    rw [get?_put] at hf
    split at hf
    · rename_i hsame
      exact .inr (hsame ▸ he)
    · exact .inl (Table.mem_keys_iff.mpr ⟨f, hf⟩)

namespace HasRoomFor

theorem of_keys (h : c.HasRoomFor keys) (hoptions : c'.options = c.options)
    (hkeys : ∀ k ∈ c'.entries.keys, k ∈ c.entries.keys ∨ k ∈ keys) : c'.HasRoomFor keys := by
  unfold HasRoomFor at h ⊢
  rw [hoptions]
  refine Nat.le_trans (Finset.card_le_card fun k hk => ?_) h
  rw [List.mem_toFinset, List.mem_append] at hk ⊢
  exact hk.elim (hkeys k) .inr

theorem of_grows (h : c.HasRoomFor keys) (hgrows : Grows keys c c') : c'.HasRoomFor keys :=
  h.of_keys hgrows.options hgrows.added

theorem of_sheds (h : c.HasRoomFor keys) (hsheds : Sheds now c c') : c'.HasRoomFor keys := by
  refine h.of_keys hsheds.options fun k hk => .inl ?_
  obtain ⟨e, he⟩ := Table.mem_keys_iff.mp hk
  exact Table.mem_keys_iff.mpr ⟨e, hsheds.kept k e he⟩

theorem size_le (h : c.HasRoomFor keys) : c.size ≤ c.options.capacity :=
  Nat.le_trans (Table.size_le_card fun _ hk => List.mem_append_left _ hk) h

/-- **With room for its key, a result is put in and nothing goes.** -/
theorem set_eq (h : c.HasRoomFor keys) {file : Path} (hfile : file.normal ∈ keys) (now : UInt64)
    (content configHash : String) (result : Json) :
    c.set now file content configHash result =
      c.put (entryOf now file content configHash result) := by
  have hput := h.of_grows (grows_put c (show (entryOf now file content configHash result).key ∈ keys
    from hfile))
  have hnone : (c.put (entryOf now file content configHash result)).overflow (some file.normal) =
      [] := by
    rw [overflow, Nat.sub_eq_zero_of_le hput.size_le, List.take_zero]
  rw [Cache.set_eq, evict, hnone]
  rfl

end HasRoomFor
end Cache

namespace Engine

variable {e e' e₁ e₂ : Engine} {analyzer analyzer' : Analyzer} {now : UInt64}
  {disk disk' : FileTree}
  {path : Path} {paths : List Path} {plan : Plan} {plans : List (Path × Plan)} {keys : List String}
  {results : Table String (Outcome Json)} {ran : List (Task (Path × String) Json × Outcome Json)}

/-! ## 2. New results -/

/-- The entry that a planned file gets, if it was analyzed. -/
def added? (configHash : String) (now : UInt64) (path : Path) (plan : Plan)
    (result : FileResult) : Option Entry :=
  match plan, result with
  | .pending source, .analyzed output => some (Cache.entryOf now path source configHash output)
  | _, _ => none

theorem key_of_added? {configHash : String} {result : FileResult} {entry : Entry}
    (h : added? configHash now path plan result = some entry) :
    entry.key = path.normal ∧ entry.created = now := by
  unfold added? at h
  split at h
  · rw [← Option.some.inj h]
    exact ⟨rfl, rfl⟩
  · cases h

/-- With room, a result is remembered by putting its entry in. -/
theorem remember_eq (h : e.cache.HasRoomFor keys) (hpath : path.normal ∈ keys) (now : UInt64)
    (plan : Plan) (result : FileResult) :
    e.remember now path plan result =
      { e with cache := (added? e.configHash now path plan result).elim e.cache e.cache.put } := by
  cases plan with
  | pending source =>
    cases result with
    | analyzed output =>
      rw [remember, h.set_eq hpath]
      rfl
    | cached output => rfl
    | failed error => rfl
  | unreadable fault => rfl
  | known output => rfl

theorem grows_remember (h : e.cache.HasRoomFor keys) (hpath : path.normal ∈ keys) (now : UInt64)
    (plan : Plan) (result : FileResult) :
    Cache.Grows keys e.cache (e.remember now path plan result).cache := by
  rw [remember_eq h hpath]
  cases hnew : added? e.configHash now path plan result with
  | none => exact .refl keys e.cache
  | some entry =>
    refine Cache.grows_put e.cache ?_
    rw [(key_of_added? hnew).1]
    exact hpath

theorem get?_remember (h : e.cache.HasRoomFor keys) (hpath : path.normal ∈ keys) (now : UInt64)
    (plan : Plan) (result : FileResult) (k : String) :
    (e.remember now path plan result).cache.entries.get? k =
      if k = path.normal then
        (added? e.configHash now path plan result).or (e.cache.entries.get? k)
      else e.cache.entries.get? k := by
  rw [remember_eq h hpath]
  cases hnew : added? e.configHash now path plan result with
  | none =>
    rw [Option.none_or, ite_self]
    rfl
  | some entry =>
    have hput := e.cache.get?_put entry k
    rw [(key_of_added? hnew).1] at hput
    exact hput

theorem configHash_remember (e : Engine) (now : UInt64) (path : Path) (plan : Plan)
    (result : FileResult) : (e.remember now path plan result).configHash = e.configHash := by
  rw [configHash, configHash, (e.remember_frame now path plan result).2]

/-- **With room for all files, taking results over evicts nothing.** -/
theorem grows_absorbFrom (h : e.cache.HasRoomFor keys) (hplans : ∀ x ∈ plans, x.1.normal ∈ keys)
    (results : Table String (Outcome Json)) (now : UInt64) (index : Nat) :
    Cache.Grows keys e.cache (absorbFrom results now index e plans).2.cache := by
  induction plans generalizing index e with
  | nil => exact .refl keys e.cache
  | cons x rest ih =>
    obtain ⟨path, plan⟩ := x
    have hhead := grows_remember h (hplans _ (List.mem_cons_self ..)) now plan
      (conclude results plan index)
    exact hhead.trans (ih (h.of_grows hhead) (fun y hy => hplans y (List.mem_cons_of_mem _ hy)) _)

theorem get?_absorbFrom_of_notMem (h : e.cache.HasRoomFor keys)
    (hplans : ∀ x ∈ plans, x.1.normal ∈ keys) (results : Table String (Outcome Json)) (now : UInt64)
    (index : Nat) {k : String} (hk : k ∉ plans.map fun x => x.1.normal) :
    (absorbFrom results now index e plans).2.cache.entries.get? k = e.cache.entries.get? k := by
  induction plans generalizing index e with
  | nil => rfl
  | cons x rest ih =>
    obtain ⟨path, plan⟩ := x
    rw [List.map_cons, List.mem_cons, not_or] at hk
    have hpath := hplans _ (List.mem_cons_self ..)
    have hhead := grows_remember h hpath now plan (conclude results plan index)
    have hrest := ih (h.of_grows hhead) (fun y hy => hplans y (List.mem_cons_of_mem _ hy))
      (index + 1) hk.2
    rw [get?_remember h hpath, if_neg hk.1] at hrest
    exact hrest

/-- **Every file gets its own entry**, or keeps what it had. -/
theorem get?_absorbFrom (h : e.cache.HasRoomFor keys) (hplans : ∀ x ∈ plans, x.1.normal ∈ keys)
    (hnodup : (plans.map fun x => x.1.normal).Nodup) (results : Table String (Outcome Json))
    (now : UInt64) (start : Nat) {index : Nat} (hget : plans[index]? = some (path, plan)) :
    (absorbFrom results now start e plans).2.cache.entries.get? path.normal =
      (added? e.configHash now path plan (conclude results plan (start + index))).or
        (e.cache.entries.get? path.normal) := by
  induction plans generalizing start e index with
  | nil => cases hget
  | cons x rest ih =>
    rw [List.map_cons, List.nodup_cons] at hnodup
    have hrest : ∀ y ∈ rest, y.1.normal ∈ keys := fun y hy => hplans y (List.mem_cons_of_mem _ hy)
    have hx := hplans x (List.mem_cons_self ..)
    have hroom := h.of_grows (grows_remember h hx now x.2 (conclude results x.2 start))
    cases index with
    | zero =>
      obtain rfl := Option.some.inj hget
      have hothers := get?_absorbFrom_of_notMem hroom hrest results now (start + 1) hnodup.1
      rw [get?_remember h hx, if_pos rfl] at hothers
      exact hothers
    | succ index =>
      have hmem : path.normal ∈ rest.map fun x => x.1.normal :=
        List.mem_map_of_mem (List.mem_of_getElem? (show rest[index]? = some (path, plan) from hget))
      have hne : path.normal ≠ x.1.normal := by
        intro hsame
        exact hnodup.1 (hsame ▸ hmem)
      have hothers := ih hroom hrest hnodup.2 (start + 1) hget
      rw [configHash_remember, get?_remember h hx, if_neg hne, Nat.add_assoc,
        Nat.add_comm 1] at hothers
      exact hothers

/-! ## 3. The first time -/

theorem mem_keys_of_mem_plan {x : Path × Plan} (hx : x ∈ (e.plan now disk paths).1) :
    x.1.normal ∈ paths.map Path.normal :=
  List.mem_map_of_mem (mem_of_mem_plan hx)

theorem configHash_plan (e : Engine) (now : UInt64) (disk : FileTree) (paths : List Path) :
    (e.plan now disk paths).2.configHash = e.configHash := by
  rw [configHash, configHash, (e.plan_frame now disk paths).2]

theorem configHash_engineFor (e : Engine) (now : UInt64) (disk : FileTree) (paths : List Path)
    (results : Table String (Outcome Json)) :
    (e.engineFor now disk paths results).configHash = e.configHash := by
  rw [← e.configHash_plan now disk paths, configHash, configHash]
  exact congrArg _ (absorbFrom_frame results now 0 _ _).2

/-- A line of a report comes from the plan of its file. -/
theorem exists_plan_of_getElem? {index : Nat} {f : FileReport}
    (h : (e.reportFor now disk paths results).files[index]? = some f) :
    ∃ plan, (e.plan now disk paths).1[index]? = some (f.path, plan) ∧
      f.result = conclude results plan index := by
  rw [show (e.reportFor now disk paths results).files =
      (e.plan now disk paths).1.zipIdx.map fun x => ⟨x.1.1, conclude results x.1.2 x.2⟩ from
    files_absorbFrom results now 0 _ _, List.getElem?_map, List.getElem?_zipIdx, Option.map_map,
    Nat.zero_add] at h
  obtain ⟨⟨path, plan⟩, hplan, rfl⟩ := Option.map_eq_some_iff.mp h
  exact ⟨plan, hplan, rfl⟩

/-- A file that was left to analyze has an output only if it was analyzed. -/
theorem eq_analyzed_of_output? {source : String} {index : Nat} {output : Json}
    (h : (conclude results (.pending source) index).output? = some output) :
    conclude results (.pending source) index = .analyzed output := by
  unfold conclude at h ⊢
  dsimp only at h ⊢
  cases hresult : results.get? (decimal index) with
  | none =>
    rw [hresult] at h
    cases h
  | some o =>
    rw [hresult] at h
    cases o with
    | output found => rw [← Option.some.inj h]
    | failure error => cases h

/-- With room for all files, an analysis adds results to what planning leaves. -/
theorem grows_engineFor (hroom : e.cache.HasRoomFor (paths.map Path.normal)) (now : UInt64)
    (disk : FileTree) (results : Table String (Outcome Json)) :
    Cache.Grows (paths.map Path.normal) (e.plan now disk paths).2.cache
      (e.engineFor now disk paths results).cache :=
  grows_absorbFrom (hroom.of_sheds (e.sheds_plan now disk paths))
    (fun _ hx => mem_keys_of_mem_plan hx) results now 0

/-- **After an analysis the key of a file holds its new entry**, or what planning left there. -/
theorem get?_engineFor (hkeys : (paths.map Path.normal).Nodup)
    (hroom : e.cache.HasRoomFor (paths.map Path.normal)) (results : Table String (Outcome Json))
    {index : Nat} (hplan : (e.plan now disk paths).1[index]? = some (path, plan)) :
    (e.engineFor now disk paths results).cache.entries.get? path.normal =
      (added? e.configHash now path plan (conclude results plan index)).or
        ((e.plan now disk paths).2.cache.entries.get? path.normal) := by
  have hnodup : ((e.plan now disk paths).1.map fun x => x.1.normal).Nodup := by
    rw [← e.paths_plan now disk paths, List.map_map] at hkeys
    exact hkeys
  have hget := get?_absorbFrom (hroom.of_sheds (e.sheds_plan now disk paths))
    (fun _ hx => mem_keys_of_mem_plan hx) hnodup results now 0 hplan
  rw [configHash_plan, Nat.zero_add] at hget
  exact hget

/-- **What a file was reported with is what the cache answers afterwards.** -/
theorem get_engineFor (hkeys : (paths.map Path.normal).Nodup)
    (hroom : e.cache.HasRoomFor (paths.map Path.normal))
    (hlifetime : 0 < e.cache.options.lifetime.ticks) {index : Nat}
    (hplan : (e.plan now disk paths).1[index]? = some (path, plan)) {output : Json}
    (houtput : (conclude results plan index).output? = some output) :
    ∃ source, disk.readText path = .ok source ∧
      ((e.engineFor now disk paths results).cache.get now path source
        (e.engineFor now disk paths results).configHash).1 = some output := by
  have hget := get?_engineFor hkeys hroom results hplan
  have hoptions := (grows_engineFor hroom now disk results).options.trans
    (e.sheds_plan now disk paths).options
  cases e.planned_plan now disk paths _ (List.mem_of_getElem? hplan) with
  | unreadable read => cases houtput
  | known read found =>
    obtain rfl := Option.some.inj houtput
    refine ⟨_, read, ?_⟩
    obtain ⟨entry, hentry, hcontent, hconfig, hresult, hyoung⟩ := Cache.get_eq_some_iff.mp found
    have hkept := (e.sheds_plan now disk paths).young _ _ hentry
      (decide_eq_false (Nat.not_le.mpr hyoung))
    rw [Cache.get_eq_some_iff, configHash_engineFor, hoptions]
    exact ⟨entry, hget.trans hkept, hcontent, hconfig, hresult, hyoung⟩
  | pending read missed =>
    refine ⟨_, read, ?_⟩
    rw [eq_analyzed_of_output? houtput] at hget
    rw [Cache.get_eq_some_iff, configHash_engineFor, hoptions]
    refine ⟨_, hget, rfl, rfl, rfl, ?_⟩
    rw [show Entry.age _ now = 0 from Nat.sub_self _]
    exact hlifetime

/-! ## 4. Nothing is too old the second time -/

/-- Whether no file that can be read has an entry that is too old. -/
def Current (e : Engine) (now : UInt64) (disk : FileTree) (paths : List Path) : Prop :=
  ∀ p ∈ paths, ∀ source, disk.readText p = .ok source → ∀ entry,
    e.cache.entries.get? p.normal = some entry →
      entry.isExpired now e.cache.options.lifetime = false

/-- What planning one file does to the entries: it drops that of the file if it can be read and the
entry is too old. -/
theorem get?_planFile (e : Engine) (now : UInt64) (disk : FileTree) (path : Path) (k : String) :
    (∃ fault, disk.readText path = .error fault ∧
      (e.planFile now disk path).2.cache.entries.get? k = e.cache.entries.get? k) ∨
    ∃ source, disk.readText path = .ok source ∧
      (e.planFile now disk path).2.cache.entries.get? k =
        (e.cache.entries.get? k).filter fun entry =>
        !(k = path.normal && entry.isExpired now e.cache.options.lifetime) := by
  unfold planFile
  cases disk.readText path with
  | error fault => exact .inl ⟨fault, rfl, rfl⟩
  | ok source =>
    refine .inr ⟨source, rfl, ?_⟩
    rw [← Cache.get?_get e.cache now path source e.configHash]
    dsimp only
    cases hget : e.cache.get now path source e.configHash with
    | mk answer cache => cases answer <;> rfl

theorem evictions_plan (e : Engine) (now : UInt64) (disk : FileTree) (paths : List Path) :
    (e.plan now disk paths).2.cache.evictions = e.cache.evictions := by
  have hget : ∀ (c : Cache) (path : Path) (source configHash : String),
      (c.get now path source configHash).2.evictions = c.evictions := by
    intro c path source configHash
    unfold Cache.get
    cases c.lookup now path source configHash <;> rfl
  have hfile : ∀ (e : Engine) (path : Path),
      (e.planFile now disk path).2.cache.evictions = e.cache.evictions := by
    intro e path
    unfold planFile
    cases disk.readText path with
    | error fault => rfl
    | ok source =>
      rw [← hget e.cache path source e.configHash]
      dsimp only
      cases e.cache.get now path source e.configHash with
      | mk answer cache => cases answer <;> rfl
  induction paths generalizing e with
  | nil => rfl
  | cons path rest ih => exact (ih _).trans (hfile e path)

/-- **After planning nothing that was asked for is too old.** -/
theorem current_plan (e : Engine) (now : UInt64) (disk : FileTree) (paths : List Path) :
    (e.plan now disk paths).2.Current now disk paths := by
  induction paths generalizing e with
  | nil =>
    intro p hp
    cases hp
  | cons path rest ih =>
    intro p hp source hread entry hentry
    rcases List.mem_cons.mp hp with rfl | hp
    · have hsheds := (e.planFile now disk p).2.sheds_plan now disk rest
      have hfirst := hsheds.kept _ _ hentry
      rw [show (e.plan now disk (p :: rest)).2.cache.options = e.cache.options from
        (e.sheds_plan now disk (p :: rest)).options]
      rcases e.get?_planFile now disk p p.normal with ⟨fault, hfault, -⟩ | ⟨source', -, hget⟩
      · rw [hread] at hfault
        cases hfault
      · rw [hget, Option.filter_eq_some_iff] at hfirst
        simpa using hfirst.2
    · exact ih _ p hp source hread entry hentry

/-- If nothing that is asked for is too old, planning drops nothing. -/
theorem get?_plan_of_current (h : e.Current now disk paths) (k : String) :
    (e.plan now disk paths).2.cache.entries.get? k = e.cache.entries.get? k := by
  induction paths generalizing e with
  | nil => rfl
  | cons path rest ih =>
    have hfile : ∀ l, (e.planFile now disk path).2.cache.entries.get? l =
        e.cache.entries.get? l := by
      intro l
      rcases e.get?_planFile now disk path l with ⟨fault, -, hget⟩ | ⟨source, hread, hget⟩
      · exact hget
      · rw [hget]
        cases hentry : e.cache.entries.get? l with
        | none => rfl
        | some entry =>
          refine Option.filter_eq_some_iff.mpr ⟨rfl, ?_⟩
          by_cases hl : l = path.normal
          · rw [h path (List.mem_cons_self ..) source hread entry (hl ▸ hentry), Bool.and_false]
            rfl
          · simp [hl]
    have hrest : (e.planFile now disk path).2.Current now disk rest := by
      intro p hp source hread entry hentry
      rw [(e.sheds_planFile now disk path).options]
      rw [hfile] at hentry
      exact h p (List.mem_cons_of_mem _ hp) source hread entry hentry
    exact (ih hrest).trans (hfile k)

theorem grows_plan (h : e.Current now disk paths) (keys : List String) :
    Cache.Grows keys e.cache (e.plan now disk paths).2.cache := by
  refine ⟨(e.sheds_plan now disk paths).options, e.evictions_plan now disk paths, ?_, ?_⟩
  · intro k hk
    rw [Table.mem_keys_iff, get?_plan_of_current h]
    exact Table.mem_keys_iff.mp hk
  · intro k hk
    rw [Table.mem_keys_iff, get?_plan_of_current h] at hk
    exact .inl (Table.mem_keys_iff.mpr hk)

theorem current_engineFor (hkeys : (paths.map Path.normal).Nodup)
    (hroom : e.cache.HasRoomFor (paths.map Path.normal))
    (hlifetime : 0 < e.cache.options.lifetime.ticks) (now : UInt64) (disk : FileTree)
    (results : Table String (Outcome Json)) :
    (e.engineFor now disk paths results).Current now disk paths := by
  intro p hp source hread entry hentry
  have hgrows := grows_engineFor hroom now disk results
  obtain ⟨⟨path, plan⟩, hx, rfl⟩ := List.mem_map.mp (e.paths_plan now disk paths ▸ hp)
  obtain ⟨index, hindex⟩ := List.mem_iff_getElem?.mp hx
  rw [get?_engineFor hkeys hroom results hindex] at hentry
  rw [hgrows.options]
  cases hnew : added? e.configHash now path plan (conclude results plan index) with
  | none =>
    rw [hnew, Option.none_or] at hentry
    exact e.current_plan now disk paths path hp source hread entry hentry
  | some new =>
    rw [hnew, Option.some_or] at hentry
    obtain rfl := Option.some.inj hentry
    rw [(e.sheds_plan now disk paths).options, Entry.isExpired, Entry.age, (key_of_added? hnew).2,
      Nat.sub_self]
    exact decide_eq_false (Nat.not_le.mpr hlifetime)

/-! ## 5. The second time -/

/-- What the cache knows is reported as known. -/
theorem Settled.eq_cached {index : Nat} {result : FileResult}
    (h : Settled e analyzer now disk ran path index result) {source : String} {output : Json}
    (hread : disk.readText path = .ok source)
    (hget : (e.cache.get now path source e.configHash).1 = some output) :
    result = .cached output := by
  have hsource : ∀ {source'}, disk.readText path = .ok source' → source' = source :=
    fun hread' => Except.ok.inj (hread'.symm.trans hread)
  have hmissed : ∀ {source'}, disk.readText path = .ok source' →
      (e.cache.get now path source' e.configHash).1 ≠ none := by
    intro source' hread'
    rw [hsource hread', hget]
    exact Option.some_ne_none _
  cases h with
  | unreadable read =>
    rw [hread] at read
    cases read
  | known read found =>
    rw [hsource read, hget] at found
    rw [Option.some.inj found]
  | analyzed read missed joined => exact absurd missed (hmissed read)
  | failed read missed joined => exact absurd missed (hmissed read)
  | skipped read missed left stop failure => exact absurd missed (hmissed read)

/-- Whether an analysis that follows another one is served what that one found: `reached` are the
files that it gives to the analyzer. -/
structure ServedAgain (r₁ : Report) (e₁ : Engine) (reached : List Path) (r₂ : Report)
    (e₂ : Engine) : Prop where
  /-- What had a result is known, with the same output. -/
  served : ∀ (index : Nat) (f : FileReport) (output : Json), r₁.files[index]? = some f →
    f.result = .cached output ∨ f.result = .analyzed output →
      r₂.files[index]? = some ⟨f.path, .cached output⟩
  /-- Only what failed is analyzed again. -/
  failed : ∀ p ∈ reached, ∃ f ∈ r₁.files, f.path = p ∧ f.result.isFailed = true
  /-- Nothing is evicted, and no key is lost. -/
  evictions : e₂.cache.evictions = e₁.cache.evictions
  kept : ∀ k ∈ e₁.cache.entries.keys, k ∈ e₂.cache.entries.keys

variable {ran₁ ran₂ : List (Task (Path × String) Json × Outcome Json)} {r₁ r₂ : Report}

/-- Reports on the same files have lines for the same files. -/
theorem exists_line (h : r₁.files.map FileReport.path = r₂.files.map FileReport.path) {index : Nat}
    {f : FileReport} (hf : r₁.files[index]? = some f) :
    ∃ f', r₂.files[index]? = some f' ∧ f'.path = f.path := by
  have hpath : (r₁.files.map FileReport.path)[index]? = some f.path := by
    rw [List.getElem?_map, hf]
    rfl
  rw [h, List.getElem?_map] at hpath
  exact Option.map_eq_some_iff.mp hpath

theorem servedAgain_of_goes (hkeys : (paths.map Path.normal).Nodup)
    (hroom : e.cache.HasRoomFor (paths.map Path.normal))
    (hlifetime : 0 < e.cache.options.lifetime.ticks)
    (hfiles : ∀ p ∈ paths, disk'.readText p = disk.readText p)
    (h₁ : e.Goes analyzer now disk paths ran₁ r₁ e₁)
    (h₂ : e₁.Goes analyzer' now disk' paths ran₂ r₂ e₂) {reached : List Path}
    (hreached : ∀ p ∈ reached, ∃ source, (p, Plan.pending source) ∈ (e₁.plan now disk' paths).1) :
    ServedAgain r₁ e₁ reached r₂ e₂ := by
  have hon₁ := h₁.isReportOn
  have hon₂ := h₂.isReportOn
  obtain ⟨results, -, rfl, rfl⟩ := h₁
  obtain ⟨results', -, -, rfl⟩ := h₂
  -- a file that had a result is read again, and the cache answers with it
  have hanswer : ∀ (index : Nat) (f : FileReport) (output : Json),
      (e.reportFor now disk paths results).files[index]? = some f →
      f.result.output? = some output → ∃ source, disk'.readText f.path = .ok source ∧
        ((e.engineFor now disk paths results).cache.get now f.path source
          (e.engineFor now disk paths results).configHash).1 = some output := by
    intro index f output hf houtput
    obtain ⟨plan, hplan, hresult⟩ := exists_plan_of_getElem? hf
    rw [hresult] at houtput
    obtain ⟨source, hread, hget⟩ := get_engineFor hkeys hroom hlifetime hplan houtput
    have hmem : f.path ∈ paths := by
      rw [← hon₁.paths_eq]
      exact List.mem_map_of_mem (List.mem_of_getElem? hf)
    exact ⟨source, (hfiles _ hmem).trans hread, hget⟩
  have hgrows : Cache.Grows (paths.map Path.normal) (e.engineFor now disk paths results).cache
      ((e.engineFor now disk paths results).engineFor now disk' paths results').cache := by
    have hcurrent : (e.engineFor now disk paths results).Current now disk' paths := by
      intro p hp source hread
      exact current_engineFor hkeys hroom hlifetime now disk results p hp source
        ((hfiles p hp).symm.trans hread)
    have hroom' := (hroom.of_sheds (e.sheds_plan now disk paths)).of_grows
      (grows_engineFor hroom now disk results)
    exact (grows_plan hcurrent _).trans (grows_engineFor hroom' now disk' results')
  refine ⟨?_, ?_, hgrows.evictions, hgrows.kept⟩
  · intro index f output hf hresult
    have houtput : f.result.output? = some output := by
      rcases hresult with hresult | hresult <;> rw [hresult] <;> rfl
    obtain ⟨source, hread, hget⟩ := hanswer index f output hf houtput
    obtain ⟨f', hf', hpath⟩ := exists_line (hon₁.paths_eq.trans hon₂.paths_eq.symm) hf
    have hsettled := hon₂.settled index f' hf'
    rw [hpath] at hsettled
    rw [hf', ← hpath, ← hsettled.eq_cached hread hget]
  · intro p hp
    obtain ⟨source, hx⟩ := hreached p hp
    have hmem : p ∈ paths := mem_of_mem_plan hx
    rw [← hon₁.paths_eq] at hmem
    obtain ⟨f, hf, rfl⟩ := List.mem_map.mp hmem
    obtain ⟨index, hindex⟩ := List.mem_iff_getElem?.mp hf
    refine ⟨f, hf, rfl, ?_⟩
    -- had the file an output, the cache would know it
    have hnone : f.result.output? = none := by
      cases houtput : f.result.output? with
      | none => rfl
      | some output =>
        obtain ⟨source', hread, hget⟩ := hanswer index f output hindex houtput
        cases planned_plan _ now disk' paths _ hx with
        | pending read missed =>
          obtain rfl := Except.ok.inj (hread.symm.trans read)
          rw [hget] at missed
          cases missed
    cases hresult : f.result with
    | failed error => rfl
    | cached output =>
      rw [hresult] at hnone
      cases hnone
    | analyzed output =>
      rw [hresult] at hnone
      cases hnone

/-- **A repeated run is served from the cache.**  Files with different keys are analyzed twice, by
analyzers that may behave in any way, at one time and under one rule configuration; what is read
from them is the same both times.  There is room in the cache for its keys and theirs together,
and results live for at least a millisecond and at most as long as a clock can tell.  Then,
whichever way either analysis goes, and also as they go on their timelines: every file that had a
result the first time is known the second time, with the same output; only files that failed are
analyzed again; and the second analysis evicts nothing and loses no key. -/
theorem repeated_run_is_served_from_cache (analyzer analyzer' : Analyzer) (now : UInt64)
    (hkeys : (paths.map Path.normal).Nodup)
    (hroom : e.cache.HasRoomFor (paths.map Path.normal))
    (hlifetime : 1 ≤ e.cache.options.lifetime.millis ∧
      e.cache.options.lifetime.millis < Nat.pow 2 64)
    (hfiles : ∀ p ∈ paths, disk'.readText p = disk.readText p) :
    (∀ ran₁ r₁ e₁ ran₂ r₂ e₂, e.Goes analyzer now disk paths ran₁ r₁ e₁ →
      e₁.Goes analyzer' now disk' paths ran₂ r₂ e₂ →
        ServedAgain r₁ e₁ (ran₂.map fun j => j.1.input.1) r₂ e₂) ∧
    ServedAgain (e.analyze analyzer now disk paths).report
      (e.analyze analyzer now disk paths).engine
      ((e.analyze analyzer now disk paths).engine.analyze analyzer' now disk' paths).calls
      ((e.analyze analyzer now disk paths).engine.analyze analyzer' now disk' paths).report
      ((e.analyze analyzer now disk paths).engine.analyze analyzer' now disk' paths).engine := by
  have hticks : 0 < e.cache.options.lifetime.ticks := by
    rw [Duration.ticks, Nat.mod_eq_of_lt hlifetime.2]
    exact hlifetime.1
  constructor
  · intro ran₁ r₁ e₁ ran₂ r₂ e₂ h₁ h₂
    refine servedAgain_of_goes hkeys hroom hticks hfiles h₁ h₂ fun p hp => ?_
    obtain ⟨j, hj, rfl⟩ := List.mem_map.mp hp
    exact h₂.pending_of_mem hj
  · obtain ⟨ran₁, h₁⟩ := e.exists_goes_analyze analyzer now disk paths
    obtain ⟨ran₂, h₂⟩ :=
      (e.analyze analyzer now disk paths).engine.exists_goes_analyze analyzer' now disk' paths
    exact servedAgain_of_goes hkeys hroom hticks hfiles h₁ h₂ fun p hp => pending_of_mem_calls hp

/-! ## 6. A file that fails at first

Of two files one is analyzed and the other fails.  There is room for just two results, and they
live for one millisecond. -/

/-- Two files, with an `x` and a `y` in them. -/
def twoFiles : FileTree where
  nodes := (Table.empty.insert [[97]] (.file [120] 0)).insert [[98]] (.file [121] 0)

theorem readText_twoFiles : twoFiles.readText (.ofText "/a") = .ok "x" ∧
    twoFiles.readText (.ofText "/b") = .ok "y" := by
  have hfind : twoFiles.find (.ofText "/a") = .ok ([[97]], .file [120] 0) ∧
      twoFiles.find (.ofText "/b") = .ok ([[98]], .file [121] 0) := by
    constructor
    · rw [FileTree.find, FileTree.resolve, show (Path.ofText "/a").hops = [.down [97]] by decide,
        FileTree.walk]
      rfl
    · rw [FileTree.find, FileTree.resolve, show (Path.ofText "/b").hops = [.down [98]] by decide,
        FileTree.walk]
      rfl
  rw [FileTree.readText, FileTree.read, hfind.1, FileTree.readText, FileTree.read, hfind.2]
  exact ⟨rfl, rfl⟩

/-- The analyzer that puts out one source and fails on all others. -/
def picky (good : String) : Analyzer :=
  fun _ _ source => ⟨[], if source = good then .value (.string source) else .error ["bad"]⟩

/-- An engine with little room and time. -/
def tight : Engine :=
  .new { CacheOptions.standard with lifetime := ⟨1⟩, capacity := 2 } .standard .null

theorem files_tight :
    (tight.analyze (picky "x") 7 twoFiles [.ofText "/a", .ofText "/b"]).report.files =
      [⟨.ofText "/a", .analyzed (.string "x")⟩, ⟨.ofText "/b", .failed "bad"⟩] := by
  simp only [analyze, plan, planFile, readText_twoFiles.1, readText_twoFiles.2]
  rfl

theorem repeated_run_is_served_from_cache_failing :
    (tight.analyze (picky "x") 7 twoFiles [.ofText "/a", .ofText "/b"]).report.files =
        [⟨.ofText "/a", .analyzed (.string "x")⟩, ⟨.ofText "/b", .failed "bad"⟩] ∧
      ((tight.analyze (picky "x") 7 twoFiles [.ofText "/a", .ofText "/b"]).engine.analyze
        (picky "y") 7
        twoFiles [.ofText "/a", .ofText "/b"]).report.files[0]? =
          some ⟨.ofText "/a", .cached (.string "x")⟩ := by
  have hkeys : ([.ofText "/a", .ofText "/b"].map Path.normal).Nodup := by decide
  have hroom : tight.cache.HasRoomFor ([.ofText "/a", .ofText "/b"].map Path.normal) := by decide
  have hserved := (repeated_run_is_served_from_cache (picky "x") (picky "y") 7 hkeys hroom
    (by decide) fun p _ => Eq.refl (twoFiles.readText p)).2
  have hfirst :
      (tight.analyze (picky "x") 7 twoFiles [.ofText "/a", .ofText "/b"]).report.files[0]? =
      some ⟨.ofText "/a", .analyzed (.string "x")⟩ := by
    rw [files_tight]
    rfl
  exact ⟨files_tight, hserved.served 0 _ _ hfirst (.inr rfl)⟩

end Engine
end AnalysisRunner
