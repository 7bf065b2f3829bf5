import AnalysisRunner.Cache.Entry
import AnalysisRunner.FileTree.Steps
import AnalysisRunner.Json.Record

/-!
# Saved caches

A saved cache is a directory with two JSON files: the entries, in one line, and a
record of the save, over several lines.  Each file is written beside its place and
then moved there, the entries first, so at every moment each of the two is either
the old or the new one, and a new record never stands beside old entries.

Entries that cannot be read are a fault.  A record that cannot be read, or is of
another version of the format, counts as missing.
-/

namespace AnalysisRunner

/-- What is recorded about a save. -/
structure SaveRecord where
  savedAt : UInt64
  /-- The lifetime of entries, in milliseconds. -/
  lifetime : UInt64
  count : UInt64
  hits : UInt64
  misses : UInt64
  deriving DecidableEq, Repr

/-- Why a saved cache cannot be used. -/
inductive ArchiveFault where
  | disk (fault : DiskFault)
  /-- The file of the entries holds something else. -/
  | corrupt (file : Path)
  deriving DecidableEq, Repr

/-- What is said about a fault. -/
def ArchiveFault.message : ArchiveFault → String
  | .disk fault => "IO error: " ++ fault.message
  | .corrupt file => "Cache error: corrupt cache file " ++ file.shown

/-- A fault with its cause: that the disk refused is said twice, once by each. -/
def ArchiveFault.causes (fault : ArchiveFault) : List String :=
  match fault with
  | .disk cause => [fault.message, cause.message]
  | .corrupt _ => [fault.message]

/-! ## 1. Entries as text -/

namespace Entry

/-- The names of the fields of an entry. -/
def fieldNames : List String :=
  ["file_path", "content_hash", "config_hash", "result", "created_at"]

/-- An entry as JSON. -/
def json (e : Entry) : Json :=
  .object
    [("file_path", .string e.key),
     ("content_hash", .string e.contentHash),
     ("config_hash", .string e.configHash),
     ("result", e.result),
     ("created_at", .number (.nat e.created))]

/-- Results may be nested this deep: a document less the list and the entry that
hold them. -/
def maxResultDepth : Nat :=
  Json.maxDepth - 2

/-- The entry that is written. -/
def ofWritten? (w : Written) : Option Entry := do
  match ← Readable.fields? fieldNames w with
  | [key, contentHash, configHash, result, created] =>
    pure
      { key := ← Readable.required Readable.text? key
        contentHash := ← Readable.required Readable.text? contentHash
        configHash := ← Readable.required Readable.text? configHash
        result := ← Readable.required (Json.ofWritten? maxResultDepth) result
        created := ← Readable.required Readable.nat? created }
  | _ => none

end Entry

namespace Archive

/-- The text of entries. -/
def entriesText (entries : List Entry) : String :=
  (Json.array (entries.map Entry.json)).compact

/-- The entries of a text. -/
def entries? (text : String) : Option (List Entry) := do
  match ← Written.ofText? text with
  | .array items => items.mapM Entry.ofWritten?
  | _ => none

/-! ## 2. Records as text -/

/-- The version of the format. -/
def version : UInt64 := 1

/-- The names of the fields of a record. -/
def recordNames : List String :=
  ["version", "saved_at", "ttl_ms", "entry_count", "hits", "misses"]

/-- A record as JSON. -/
def recordJson (r : SaveRecord) : Json :=
  .object
    [("version", .number (.nat version)),
     ("saved_at", .number (.nat r.savedAt)),
     ("ttl_ms", .number (.nat r.lifetime)),
     ("entry_count", .number (.nat r.count)),
     ("hits", .number (.nat r.hits)),
     ("misses", .number (.nat r.misses))]

/-- The text of a record. -/
def recordText (r : SaveRecord) : String :=
  (recordJson r).pretty

/-- The record of a text, if it is of this version. -/
def record? (text : String) : Option SaveRecord := do
  match ← Readable.fields? recordNames (← Written.ofText? text) with
  | [v, savedAt, lifetime, count, hits, misses] =>
    let v ← Readable.required Readable.nat? v
    let r : SaveRecord :=
      { savedAt := ← Readable.required Readable.nat? savedAt
        lifetime := ← Readable.required Readable.nat? lifetime
        count := ← Readable.required Readable.nat? count
        hits := ← Readable.required Readable.nat? hits
        misses := ← Readable.required Readable.nat? misses }
    if v = version then some r else none
  | _ => none

/-! ## 3. The directory -/

/-- The file of the entries. -/
def entriesFile (dir : Path) : Path :=
  dir.join (.ofText "entries.json")

/-- The file of the record. -/
def recordFile (dir : Path) : Path :=
  dir.join (.ofText "metadata.json")

/-- Where the entries are written before they take their place. -/
def entriesDraft (dir : Path) : Path :=
  dir.join (.ofText "entries.json.tmp")

/-- Where the record is written before it takes its place. -/
def recordDraft (dir : Path) : Path :=
  dir.join (.ofText "metadata.json.tmp")

/-- The steps of a save. -/
def saveSteps (dir : Path) (entries : List Entry) (r : SaveRecord) : List DiskStep :=
  [.makeDirectories dir,
   .write (entriesDraft dir) (Bytes.ofText (entriesText entries)),
   .rename (entriesDraft dir) (entriesFile dir),
   .write (recordDraft dir) (Bytes.ofText (recordText r)),
   .rename (recordDraft dir) (recordFile dir)]

/-- Saves entries and a record; what was done before a fault stays done. -/
def save (dir : Path) (entries : List Entry) (r : SaveRecord) (now : Nat) (disk : FileTree) :
    FileTree × Except ArchiveFault Unit :=
  match DiskStep.runAll now (saveSteps dir entries r) disk with
  | (disk, none) => (disk, .ok ())
  | (disk, some fault) => (disk, .error (.disk fault))

/-- The entries of a directory, `none` if there are none saved. -/
def readEntries (dir : Path) (disk : FileTree) : Except ArchiveFault (Option (List Entry)) :=
  match disk.read (entriesFile dir) with
  | .error .notFound => .ok none
  | .error fault => .error (.disk fault)
  | .ok content =>
    match content.text?.bind entries? with
    | some entries => .ok (some entries)
    | none => .error (.corrupt (entriesFile dir))

/-- The record of a directory, if it has one that can be used. -/
def readRecord (dir : Path) (disk : FileTree) : Option SaveRecord :=
  match disk.read (recordFile dir) with
  | .error _ => none
  | .ok content => content.text?.bind record?

/-- Removes a file, if it is there. -/
def removeIfThere (disk : FileTree) (path : Path) : Except DiskFault FileTree :=
  match disk.removeFile path with
  | .ok disk => .ok disk
  | .error .notFound => .ok disk
  | .error fault => .error fault

/-- Removes both files, and the directory if nothing else is in it. -/
def remove (dir : Path) (disk : FileTree) : FileTree × Except ArchiveFault Unit :=
  match removeIfThere disk (entriesFile dir) with
  | .error fault => (disk, .error (.disk fault))
  | .ok disk =>
    match removeIfThere disk (recordFile dir) with
    | .error fault => (disk, .error (.disk fault))
    | .ok disk =>
      match disk.removeDirectory dir with
      | .ok disk => (disk, .ok ())
      | .error _ => (disk, .ok ())

end Archive
end AnalysisRunner
