import AnalysisRunner.Cache.Entry
import AnalysisRunner.Cache.Options
import AnalysisRunner.Path.Basic
import AnalysisRunner.Table

/-!
# The cache of results

A cache holds at most one result for the key of a file.  A result is served only
while it fits: the content and the configuration it was computed from are those
asked for, and it is younger than its lifetime.

The cache is bounded.  When it overflows, the oldest results go, and among results
of one age those with the smaller keys; the one just put in stays.  Being read does
not make a result younger.
-/

namespace AnalysisRunner

/-- A cache with its accounts. -/
structure Cache where
  options : CacheOptions
  entries : Table String Entry
  hits : Nat
  misses : Nat
  evictions : Nat
  expired : Nat

/-- What a look into a cache finds. -/
inductive Lookup where
  | hit (result : Json)
  /-- There is a result, but its time is over. -/
  | expired
  /-- There is a result for another content or configuration. -/
  | stale
  | absent

namespace Cache

/-- A cache with nothing in it; it has room for at least one result. -/
def new (options : CacheOptions) : Cache where
  options := { options with capacity := max options.capacity 1 }
  entries := .empty
  hits := 0
  misses := 0
  evictions := 0
  expired := 0

/-- The number of results. -/
def size (c : Cache) : Nat :=
  c.entries.size

/-! ## 1. Eviction -/

/-- The order in which entries go: older ones first, then those with the smaller
key. -/
def goesBefore (a b : Entry) : Bool :=
  a.created < b.created || (a.created = b.created && a.key ≤ b.key)

/-- The entries that may go, in the order in which they go. -/
def candidates (c : Cache) (spared : Option String) : List Entry :=
  (c.entries.values.filter fun e => some e.key ≠ spared).mergeSort goesBefore

/-- The entries that have to go for the cache to fit its capacity. -/
def overflow (c : Cache) (spared : Option String) : List Entry :=
  (c.candidates spared).take (c.size - c.options.capacity)

/-- The cache without what it has no room for. -/
def evict (c : Cache) (spared : Option String) : Cache :=
  let gone := c.overflow spared
  { c with
    entries := gone.foldl (fun t e => t.erase e.key) c.entries
    evictions := c.evictions + gone.length }

/-! ## 2. Use -/

/-- What the cache knows about a file with the given content and configuration. -/
def lookup (c : Cache) (now : UInt64) (file : Path) (content configHash : String) : Lookup :=
  match c.entries.get? file.normal with
  | none => .absent
  | some e =>
    if e.isExpired now c.options.lifetime then .expired
    else if e.isFor (Fingerprint.ofText content) configHash then .hit e.result
    else .stale

/-- Puts a result in, in place of an older one for the same file. -/
def set (c : Cache) (now : UInt64) (file : Path) (content configHash : String)
    (result : Json) : Cache :=
  let e : Entry := ⟨file.normal, Fingerprint.ofText content, configHash, result, now⟩
  let grown : Cache := { c with entries := c.entries.insert e.key e }
  grown.evict (some e.key)

/-- Asks for a result, and counts a hit or a miss.  A result whose time is over is
dropped. -/
def get (c : Cache) (now : UInt64) (file : Path) (content configHash : String) :
    Option Json × Cache :=
  match c.lookup now file content configHash with
  | .hit result => (some result, { c with hits := c.hits + 1 })
  | .expired =>
    (none, { c with
      entries := c.entries.erase file.normal
      expired := c.expired + 1
      misses := c.misses + 1 })
  | .stale => (none, { c with misses := c.misses + 1 })
  | .absent => (none, { c with misses := c.misses + 1 })

/-- Whether a result would be served. -/
def has (c : Cache) (now : UInt64) (file : Path) (content configHash : String) : Bool :=
  match c.lookup now file content configHash with
  | .hit _ => true
  | _ => false

/-- Drops the result for a file. -/
def invalidate (c : Cache) (file : Path) : Cache :=
  { c with entries := c.entries.erase file.normal }

/-- Drops all results and keeps the accounts. -/
def clear (c : Cache) : Cache :=
  { c with entries := .empty }

/-- Drops the results whose time is over, and says how many there were. -/
def cleanup (c : Cache) (now : UInt64) : Nat × Cache :=
  let kept := c.entries.filter fun _ e => !e.isExpired now c.options.lifetime
  let removed := c.size - kept.size
  (removed, { c with entries := kept, expired := c.expired + removed })

/-! ## 3. Accounts -/

/-- The share of the questions that were answered, zero if there were none. -/
def hitRate (c : Cache) : Binary64 :=
  if c.hits + c.misses = 0 then .zero false
  else
    match Binary64.ofNat c.hits, Binary64.ofNat (c.hits + c.misses) with
    | some hits, some all => (hits.div all).getD (.zero false)
    | _, _ => .zero false

/-- The accounts as JSON. -/
def statsJson (c : Cache) : Json :=
  .object
    [("entries", .ofNat c.size),
     ("hits", .ofNat c.hits),
     ("misses", .ofNat c.misses),
     ("evictions", .ofNat c.evictions),
     ("expired", .ofNat c.expired),
     ("hit_rate", .number (.real c.hitRate))]

end Cache
end AnalysisRunner
