import AnalysisRunner.CommandLine.Run
import AnalysisRunner.FileTree.Steps
import AnalysisRunner.Watch.Polling
import Std.Async.Signal
import Std.Async.System
import Std.Time.DateTime.Timestamp

/-!
# The program

The program takes over from the disk what its command looks at, runs the command on
that copy, and carries the steps from the copy to the command's result out on the
disk.  Watching repeats this: the copy is renewed at every poll, and what differs is
what the watch session is notified about.
-/

namespace AnalysisRunner

/-! ## 1. Clocks -/

/-- The time in milliseconds since the epoch. -/
def wallMillis : IO Int := do
  return (← Std.Time.Timestamp.now).toMillisecondsSinceUnixEpoch.val

/-- The time. -/
def wallTime : IO Timestamp := do
  return (Timestamp.ofMillis? (← wallMillis)).getD ⟨0, 0⟩

/-! ## 2. Copies of the disk -/

/-- How files are copied: a file that is as it was in an older copy keeps its time, and
any other has the time of the copy. -/
structure Copying where
  older : FileTree
  now : Nat

/-- The names on an absolute path without links and dots. -/
def Path.location (p : Path) : Location :=
  p.components.filterMap fun
    | .name bytes => some bytes
    | _ => none

/-- The text that names a location to the system. -/
def Location.text (loc : Location) : String :=
  loc.path.shown

/-- The names in a directory, `none` if there is no such directory. -/
def listDirectory (loc : Location) : IO (Option (List Bytes)) := do
  try
    let dir ← IO.FS.realPath loc.text
    return some ((← dir.readDir).toList.map fun e => Bytes.ofText e.fileName)
  catch _ => return none

namespace Copying

/-- The node of a file. -/
def fileNode (c : Copying) (loc : Location) : IO (Option Node) := do
  try
    let content := (← IO.FS.readBinFile loc.text).toList
    match c.older.nodeAt? loc with
    | some (.file before modified) =>
      return some (.file content (if before = content then modified else c.now))
    | _ => return some (.file content c.now)
  catch _ => return none

/-- Copies what stands at a location in a directory that is copied, with the
directories on the way if it is a link, and answers where it leads. -/
def place (c : Copying) (tree : FileTree) (loc : Location) : IO (FileTree × Option Location) := do
  try
    let target := Path.ofText (← IO.FS.realPath loc.text).toString
    let real := target.location
    let tree := if real = loc then tree else tree.put loc (.link target)
    let above := (List.range real.length).drop 1
    let tree := above.foldl (fun t n => t.put (real.take n) .directory) tree
    if (← listDirectory real).isSome then return (tree.put real .directory, some real)
    match ← c.fileNode real with
    | some n => return (tree.put real n, some real)
    | none => return (tree, some real)
  catch _ => return (tree, none)

/-- Copies what stands on the way that moves lead from a location. -/
def along (c : Copying) (tree : FileTree) (loc : Location) :
    List Hop → IO (FileTree × Option Location)
  | [] => return (tree, some loc)
  | .up :: rest => c.along tree loc.dropLast rest
  | .down name :: rest => do
    match ← c.place tree (loc ++ [name]) with
    | (tree, some real) => c.along tree real rest
    | (tree, none) => return (tree, none)

/-- Copies all that is below a location.  Directories that were copied before are not
copied again. -/
partial def below (c : Copying) (done : List Location) (tree : FileTree) (loc : Location) :
    IO (FileTree × List Location) := do
  if done.contains loc then return (tree, done)
  let mut tree := tree
  let mut done := loc :: done
  for name in (← listDirectory loc).getD [] do
    match ← c.place tree (loc ++ [name]) with
    | (copied, some real) => (tree, done) ← c.below done copied real
    | (copied, none) => tree := copied
  return (tree, done)

/-- Copies what paths lead to, with all that is below. -/
def paths (c : Copying) (tree : FileTree) (ps : List Path) : IO FileTree :=
  ps.foldlM (fun tree p => do
    let start := if p.isAbsolute then [] else tree.base
    match ← c.along tree start p.hops with
    | (tree, some loc) => return (← c.below [] tree loc).1
    | (tree, none) => return tree) tree

/-- A copy of the working directory alone. -/
def start (c : Copying) : IO FileTree := do
  let base := (Path.ofText (← IO.currentDir).toString).location
  let (tree, _) ← c.along .empty [] (base.map .down)
  return { tree with base }

end Copying

/-- Carries a step out on the disk. -/
def DiskStep.perform : DiskStep → IO Unit
  | .makeDirectories path => IO.FS.createDirAll path.shown
  | .write path content => IO.FS.writeBinFile path.shown ⟨content.toArray⟩
  | .rename src dst => IO.FS.rename src.shown dst.shown
  | .removeFile path => IO.FS.removeFile path.shown
  | .removeDirectory path => IO.FS.removeDir path.shown

/-! ## 3. Commands -/

/-- The backend of this program, which polls. -/
def pollingBackend (disk : FileTree) : Backend where
  nativeFault := some ⟨"Notifications are not supported", []⟩
  pollFault := none
  refusal p := if disk.leads p then none else some ⟨"No path was found.", [p]⟩

/-- How long the program sleeps between two looks at the clock, in milliseconds. -/
def nap : Nat := 20

/-- Watches until the signal to stop comes. -/
partial def WatchRun.go (run : WatchRun) (stop : Std.Async.AsyncTask Int) (paths : List Path)
    (disk : FileTree) (start nextPoll : Nat) : IO Unit := do
  if ← IO.hasFinished stop then
    run.stopLines.forM IO.println
    return
  IO.sleep nap.toUInt32
  let now := (← IO.monoMsNow) - start
  let time ← wallTime
  let mut disk := disk
  let mut session := run.session
  let mut nextPoll := nextPoll
  if nextPoll ≤ now then
    let c : Copying := ⟨disk, (← wallMillis).toNat⟩
    let copy ← c.paths (← c.start) paths
    for (kind, path) in disk.notifications copy do
      session := session.notify kind [path] now.toUInt64
    disk := copy
    nextPoll := now + session.watcher.options.pollInterval.millis
  let (handed, passed) := session.pass disk time now.toUInt64
  let run := { run with session := passed }
  (handed.flatMap run.deliveryLines).forM IO.println
  (← IO.getStdout).flush
  run.go stop paths disk start nextPoll

/-- Runs a command on the disk and answers with the exit code. -/
def Invocation.execute (i : Invocation) : IO UInt32 := do
  let now ← wallMillis
  let c : Copying := ⟨.empty, now.toNat⟩
  let values ← Host.variables.mapM fun name => return (name, ← IO.getEnv name)
  let environment : Environment := fun name => (values.lookup name).join
  let home := (← IO.getEnv "HOME").map Path.ofText
  let disk ← c.paths (← c.start) (i.settingsFiles home)
  let processors := (← Std.Async.System.getCPUInfo).size.toUInt64
  let host : Host := ⟨disk, environment, home, max 1 processors, now.toNat.toUInt64⟩
  let further := match Settings.load host.standard disk environment home i.config with
    | .ok loaded => i.furtherPaths loaded.settings
    | .error _ => []
  let host := { host with disk := ← c.paths disk further }
  match i.run host (pollingBackend host.disk) with
  | .done result =>
    (host.disk.stepsTo result.disk).forM DiskStep.perform
    result.lines.forM IO.println
    match result.error with
    | none => return 0
    | some error =>
      IO.eprintln (host.errorLine error)
      return 1
  | .watching run lines =>
    lines.forM IO.println
    (← IO.getStdout).flush
    let signal ← Std.Async.Signal.Waiter.mk .sigint false
    run.go (← signal.wait) further host.disk (← IO.monoMsNow) 0
    return 0

/-- How the program is called. -/
def usage : String :=
  "Usage: sollint [-o json|pretty] [-c FILE] [-v] COMMAND\n\n" ++
  "Commands:\n" ++
  "  config init [FILE]   Write a default configuration file\n" ++
  "  config show          Print the effective configuration\n" ++
  "  cache stats          Show persisted cache statistics\n" ++
  "  cache clean          Drop expired entries from the persisted cache\n" ++
  "  cache clear          Delete the persisted cache\n" ++
  "  watch PATHS          Watch files and print change batches until interrupted"

end AnalysisRunner

open AnalysisRunner in
/-- Runs the command that the arguments name. -/
def main (args : List String) : IO UInt32 := do
  let preset := (← IO.getEnv "SOLLINT_CONFIG").map Path.ofText
  match Invocation.ofArguments preset args with
  | .error .misuse =>
    IO.eprintln usage
    return 2
  | .error .version =>
    IO.println versionLine
    return 0
  | .error .help =>
    IO.println usage
    return 0
  | .ok i =>
    try i.execute
    catch e =>
      IO.eprintln ("Error: " ++ toString e)
      return 1
