import AnalysisRunner.Proofs.Path.Table
import AnalysisRunner.Watch.Debounce

/-!
# What waits for quiet

A debouncer keeps one kind of change for every path that waits, and merges the kinds that come
one after the other (`kindOf?_record`).  Notifications of one kind about several paths leave
every one of these paths waiting, with one exception: an addition that waits and a removal
that comes cancel each other (`isPending_foldl_record`).

A drain loses nothing: what waited still waits or has been taken out (`isPending_drain`).
-/

namespace AnalysisRunner
namespace Debouncer

variable {d : Debouncer} {p q : Path} {kind : ChangeKind} {now : UInt64}

/-! ## 1. Kinds -/

/-- The kind of change that waits at a path. -/
def kindOf? (d : Debouncer) (p : Path) : Option ChangeKind :=
  (d.pending.find? p).map Pending.kind

theorem isPending_eq (d : Debouncer) (p : Path) : d.isPending p = (d.kindOf? p).isSome := by
  rw [isPending, kindOf?, Option.isSome_map, PathTable.has_eq_isSome_find?]

/-- What waits at a path after one more notification. -/
def next? (waiting : Option ChangeKind) (kind : ChangeKind) : Option ChangeKind :=
  waiting.elim (some kind) fun previous => previous.merge? kind

theorem record_eq (d : Debouncer) (p : Path) (kind : ChangeKind) (now : UInt64) :
    d.record p kind now =
      { d with
        pending := (next? (d.kindOf? p) kind).elim (d.pending.remove p) fun merged =>
          d.pending.put p ⟨merged, now + d.delay⟩ } := by
  rw [record, kindOf?]
  cases d.pending.find? p with
  | none => rfl
  | some previous =>
    dsimp only [Option.map_some, next?, Option.elim_some]
    cases previous.kind.merge? kind <;> rfl

theorem kindOf?_record (d : Debouncer) (p q : Path) (kind : ChangeKind) (now : UInt64) :
    (d.record p kind now).kindOf? q =
      if q.components = p.components then next? (d.kindOf? q) kind else d.kindOf? q := by
  have hsame : q.components = p.components → d.kindOf? q = d.kindOf? p := by
    intro h
    rw [kindOf?, kindOf?, PathTable.find?_congr _ h]
  rw [record_eq, kindOf?]
  cases hnext : next? (d.kindOf? p) kind with
  | none =>
    rw [Option.elim_none, PathTable.find?_remove]
    split
    · rename_i h
      rw [hsame h, hnext, Option.map_none]
    · rfl
  | some merged =>
    rw [Option.elim_some, PathTable.find?_put]
    split
    · rename_i h
      rw [hsame h, hnext, Option.map_some]
    · rfl

/-- **Paths wait once a notification has named them**, unless it was of a removal and met an
addition. -/
theorem isPending_foldl_record {paths : List Path}
    (hkind : d.kindOf? p = some .add → kind ≠ .remove)
    (hwaits : d.isPending p = true ∨ ∃ q ∈ paths, q.components = p.components) :
    (paths.foldl (fun d q => d.record q kind now) d).isPending p = true := by
  induction paths generalizing d with
  | nil => simpa using hwaits
  | cons q rest ih =>
    by_cases hq : p.components = q.components
    · -- whatever is merged now, it is no addition that a removal can still meet
      have hnext : ∃ k, next? (d.kindOf? p) kind = some k ∧ (k = .add → kind ≠ .remove) := by
        cases hwaiting : d.kindOf? p with
        | none => exact ⟨kind, rfl, by simp +contextual⟩
        | some previous =>
          rw [hwaiting] at hkind
          cases previous <;> cases kind <;> simp_all [next?, ChangeKind.merge?]
      obtain ⟨k, hk, hadd⟩ := hnext
      have hrecord : (d.record q kind now).kindOf? p = some k := by
        rw [kindOf?_record, if_pos hq, hk]
      refine ih ?_ (.inl ?_)
      · rw [hrecord]
        exact fun h => hadd (Option.some.inj h)
      · rw [isPending_eq, hrecord]
        rfl
    · have hrecord : (d.record q kind now).kindOf? p = d.kindOf? p := by
        rw [kindOf?_record, if_neg hq]
      refine ih ?_ ?_
      · rwa [hrecord]
      · rw [isPending_eq, hrecord, ← isPending_eq]
        refine hwaits.imp_right ?_
        rintro ⟨r, hr, hsame⟩
        rcases List.mem_cons.mp hr with rfl | hr
        · exact absurd hsame.symm hq
        · exact ⟨r, hr, hsame⟩

theorem kindOf?_foldl_record {paths : List Path}
    (hpaths : ∀ q ∈ paths, q.components ≠ p.components) :
    (paths.foldl (fun d q => d.record q kind now) d).kindOf? p = d.kindOf? p := by
  induction paths generalizing d with
  | nil => rfl
  | cons q rest ih =>
    rw [List.foldl_cons, ih fun r hr => hpaths r (List.mem_cons_of_mem _ hr), kindOf?_record,
      if_neg (Ne.symm (hpaths q (List.mem_cons_self ..)))]

/-! ## 2. Paths -/

/-- Whether every path that waits stands under its components and satisfies a condition. -/
def Holds (d : Debouncer) (Q : Path → Prop) : Prop :=
  ∀ k x, d.pending.get? k = some x → x.1.components = k ∧ Q x.1

namespace Holds

variable {Q : Path → Prop}

theorem new (delay : Duration) : (Debouncer.new delay).Holds Q := by
  intro k x hx
  cases hx

theorem record (h : d.Holds Q) (hp : Q p) (kind : ChangeKind) (now : UInt64) :
    (d.record p kind now).Holds Q := by
  have hput : ∀ e, Holds { d with pending := d.pending.put p e } Q := by
    intro e k x hx
    rw [PathTable.get?_put] at hx
    split at hx
    · rename_i hk
      obtain rfl := Option.some.inj hx
      cases hold : d.pending.get? k with
      | none => exact ⟨hk.symm, hp⟩
      | some y => exact h k y hold
    · exact h k x hx
  have hremove : Holds { d with pending := d.pending.remove p } Q := by
    intro k x hx
    rw [PathTable.get?_remove] at hx
    split at hx
    · cases hx
    · exact h k x hx
  rw [record_eq]
  cases next? (d.kindOf? p) kind with
  | none => exact hremove
  | some merged => exact hput _

theorem foldl_record (h : d.Holds Q) {paths : List Path} (hpaths : ∀ p ∈ paths, Q p)
    (kind : ChangeKind) (now : UInt64) :
    (paths.foldl (fun d p => d.record p kind now) d).Holds Q := by
  induction paths generalizing d with
  | nil => exact h
  | cons p rest ih =>
    exact ih (h.record (hpaths p (List.mem_cons_self ..)) kind now)
      fun q hq => hpaths q (List.mem_cons_of_mem _ hq)

theorem drain (h : d.Holds Q) (now : UInt64) :
    (∀ p ∈ (d.drain now).1.map Prod.fst, Q p) ∧ (d.drain now).2.Holds Q := by
  refine ⟨?_, ?_⟩
  · intro p hp
    rw [Debouncer.drain, List.map_map, List.mem_map] at hp
    obtain ⟨x, hx, rfl⟩ := hp
    obtain ⟨k, hk⟩ := PathTable.mem_sorted.mp hx
    rw [Table.get?_filter, Option.filter_eq_some_iff] at hk
    exact (h k x hk.1).2
  · intro k x hx
    rw [Debouncer.drain, Table.get?_filter, Option.filter_eq_some_iff] at hx
    exact h k x hx.1

end Holds

/-- **A drain loses nothing**: what waited still waits or has been taken out. -/
theorem isPending_drain {Q : Path → Prop} (h : d.Holds Q)
    (hp : d.isPending p = true) (now : UInt64) :
    (d.drain now).2.isPending p = true ∨
      ∃ q ∈ (d.drain now).1.map Prod.fst, q.components = p.components := by
  obtain ⟨x, hx⟩ := Option.isSome_iff_exists.mp hp
  by_cases hdue : x.2.deadline ≤ now
  · refine .inr ⟨x.1, ?_, (h _ x hx).1⟩
    rw [drain, List.map_map, List.mem_map]
    refine ⟨x, PathTable.mem_sorted.mpr ⟨p.components, ?_⟩, rfl⟩
    rw [Table.get?_filter, hx]
    simp [Option.filter, hdue]
  · refine .inl ?_
    show (Table.get? _ _).isSome = true
    rw [drain, Table.get?_filter, hx]
    simp [Option.filter, hdue]

/-! ## 3. A path alone -/

theorem drain_new (delay : Duration) (now : UInt64) : ((new delay).drain now).1 = [] := by
  simp [drain, new, PathTable.sorted, Table.filter, Table.empty]

/-- A path that waits alone is taken out at its deadline, and nothing is left. -/
theorem drain_record_new (delay : Duration) (p : Path) (kind : ChangeKind) (now : UInt64) :
    ((new delay).record p kind now).drain (now + delay.span) = ([(p, kind)], new delay) := by
  have hentries : ((new delay).record p kind now).pending.entries =
      [(p.components, p, ⟨kind, now + delay.span⟩)] := rfl
  refine Prod.ext ?_ ?_
  · simp [drain, PathTable.sorted, Table.filter, hentries]
  · have hleft : ((new delay).record p kind now).pending.filter
        (fun _ e => ! (e.2.deadline ≤ now + delay.span)) = .empty := by
      simp [Table.filter, Table.empty, hentries]
    rw [drain, hleft]
    rfl

end Debouncer
end AnalysisRunner
