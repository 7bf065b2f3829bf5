import AnalysisRunner.Cache.Archive
import AnalysisRunner.Cache.Basic

/-!
# Saving and restoring a cache

A persistent cache is saved to its directory and restored from it.  Restoring takes
over what is not too old under the lifetime of the restoring cache, in place of what
it held for the same files, and then lets the cache shrink to its capacity.
-/

namespace AnalysisRunner
namespace Cache

/-- The entries in the order in which they are saved. -/
def sortedEntries (c : Cache) : List Entry :=
  c.entries.values.mergeSort fun a b => a.key ≤ b.key

/-- The record of a save at a time. -/
def record (c : Cache) (now : UInt64) : SaveRecord where
  savedAt := now
  lifetime := c.options.lifetime.ticks.toUInt64
  count := c.size.toUInt64
  hits := c.hits.toUInt64
  misses := c.misses.toUInt64

/-- Saves a cache, if it is persistent. -/
def save (c : Cache) (now : UInt64) (disk : FileTree) : FileTree × Except ArchiveFault Unit :=
  if c.options.persistent then
    Archive.save c.options.directory c.sortedEntries (c.record now) now.toNat disk
  else (disk, .ok ())

/-- The saved entries that are still good. -/
def fresh (c : Cache) (now : UInt64) (entries : List Entry) : List Entry :=
  entries.filter fun e => !e.isExpired now c.options.lifetime

/-- Takes over saved entries, and the counts of a record if there is one. -/
def restore (c : Cache) (now : UInt64) (entries : List Entry) (r : Option SaveRecord) : Cache :=
  let merged : Cache :=
    { c with
      entries := (c.fresh now entries).foldl (fun t e => t.insert e.key e) c.entries
      hits := (r.map fun r => r.hits.toNat).getD c.hits
      misses := (r.map fun r => r.misses.toNat).getD c.misses }
  merged.evict none

/-- Restores a persistent cache from its directory, and says how many entries were
taken over.  The entries are read before anything changes. -/
def load (c : Cache) (now : UInt64) (disk : FileTree) : Except ArchiveFault Nat × Cache :=
  if c.options.persistent then
    match Archive.readEntries c.options.directory disk with
    | .error fault => (.error fault, c)
    | .ok none => (.ok 0, c)
    | .ok (some entries) =>
      (.ok (c.fresh now entries).length,
        c.restore now entries (Archive.readRecord c.options.directory disk))
  else (.ok 0, c)

/-- Removes what was saved. -/
def deleteSaved (c : Cache) (disk : FileTree) : FileTree × Except ArchiveFault Unit :=
  Archive.remove c.options.directory disk

end Cache
end AnalysisRunner
