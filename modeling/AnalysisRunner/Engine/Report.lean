import AnalysisRunner.Json.Basic
import AnalysisRunner.Path.Basic

/-!
# Reports

What an analysis says: one line for each file that was asked for, in that order.
-/

namespace AnalysisRunner

/-- What became of a file. -/
inductive FileResult where
  /-- The result was known. -/
  | cached (output : Json)
  | analyzed (output : Json)
  | failed (error : String)

namespace FileResult

/-- The word for what became of a file. -/
def status : FileResult → String
  | .cached _ => "cached"
  | .analyzed _ => "analyzed"
  | .failed _ => "failed"

/-- The result, if there is one. -/
def output? : FileResult → Option Json
  | .cached output => some output
  | .analyzed output => some output
  | .failed _ => none

/-- The error, if there is one. -/
def error? : FileResult → Option String
  | .failed error => some error
  | _ => none

/-- Whether the result was known. -/
def isCached : FileResult → Bool
  | .cached _ => true
  | _ => false

/-- Whether the file was analyzed. -/
def isAnalyzed : FileResult → Bool
  | .analyzed _ => true
  | _ => false

/-- Whether there is no result. -/
def isFailed : FileResult → Bool
  | .failed _ => true
  | _ => false

end FileResult

/-- A file and what became of it. -/
structure FileReport where
  path : Path
  result : FileResult

/-- A report on a file as JSON. -/
def FileReport.json (f : FileReport) : Json :=
  .object
    [("path", .string f.path.shown),
     ("status", .string f.result.status),
     ("output", .ofOption id f.result.output?),
     ("error", .ofOption .string f.result.error?)]

/-- A report on files. -/
structure Report where
  files : List FileReport

namespace Report

/-- How many results were known. -/
def cached (r : Report) : Nat :=
  r.files.countP fun f => f.result.isCached

/-- How many files were analyzed. -/
def analyzed (r : Report) : Nat :=
  r.files.countP fun f => f.result.isAnalyzed

/-- How many files failed. -/
def failed (r : Report) : Nat :=
  r.files.countP fun f => f.result.isFailed

/-- Whether no file failed. -/
def isSuccess (r : Report) : Bool :=
  r.failed = 0

/-- A report as JSON, with its counts. -/
def json (r : Report) : Json :=
  .object
    [("files", .array (r.files.map FileReport.json)),
     ("cached", .ofNat r.cached),
     ("analyzed", .ofNat r.analyzed),
     ("failed", .ofNat r.failed),
     ("is_success", .bool r.isSuccess)]

end Report
end AnalysisRunner
