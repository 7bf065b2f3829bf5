import AnalysisRunner.FileTree.Basic

/-!
# Reading and changing a disk

Each operation either answers or leaves the disk as it was.  The operations are
those of a file system: they do one thing, and what they refuse they refuse for
one reason.  The one that takes several steps is making a directory together with those
above it: if it is refused half way, what it made stays (`directoriesMade`).
-/

namespace AnalysisRunner
namespace FileTree

/-! ## 1. Reading -/

/-- The content of a file. -/
def read (t : FileTree) (p : Path) : Except DiskFault Bytes := do
  match ← t.find p with
  | (_, .file content _) => pure content
  | _ => throw .isDirectory

/-- The content of a file that is text. -/
def readText (t : FileTree) (p : Path) : Except DiskFault String := do
  match (← t.read p).text? with
  | some text => pure text
  | none => throw .notText

/-- The names in a directory, with their nodes. -/
def readDirectory (t : FileTree) (p : Path) : Except DiskFault (List (Bytes × Node)) := do
  match ← t.find p with
  | (loc, .directory) => pure (t.children loc)
  | _ => throw .notDirectory

/-! ## 2. Changing -/

/-- The disk with a node at a location. -/
def put (t : FileTree) (loc : Location) (n : Node) : FileTree :=
  { t with nodes := t.nodes.insert loc n }

/-- The disk without a location and all that is below it. -/
def prune (t : FileTree) (loc : Location) : FileTree :=
  { t with nodes := t.nodes.filter fun l _ => !loc.isPrefixOf l }

/-- Writes a file, in place of an older one. -/
def write (t : FileTree) (p : Path) (content : Bytes) (modified : Nat) :
    Except DiskFault FileTree := do
  if p.isDirectoryOnly then
    -- a file cannot be made under such a name, whatever is there
    match t.resolve true p with
    | .error fault => throw fault
    | .ok _ => throw .isDirectory
  match ← t.resolve true p with
  | .node _ .directory => throw .isDirectory
  | .node loc _ => pure (t.put loc (.file content modified))
  | .vacant loc => pure (t.put loc (.file content modified))

/-- Makes one directory.  A link is not followed in its place; a path that ends in a dot asks
for what is there already. -/
def makeDirectory (t : FileTree) (p : Path) : Except DiskFault FileTree :=
  if p.endsInDot then
    match t.find p with
    | .ok _ => .error .alreadyExists
    | .error fault => .error fault
  else if p.bytes.isEmpty then .error .notFound
  else if p.bytes.contains 0 then .error .invalidName
  else
    match t.walk false maxLinks (if p.isAbsolute then [] else t.base) p.hops with
    | .ok (.node ..) => .error .alreadyExists
    | .ok (.vacant loc) => .ok (t.put loc .directory)
    | .error fault => .error fault

/-- Makes a directory and those above it that are missing; the first argument
bounds how many.  The answer is the disk after each directory that was made, and the
fault that came then, if one did. -/
def makeDirectoriesUpTo : Nat → FileTree → Path → List FileTree × Option DiskFault
  | 0, _, _ => ([], none)
  | fuel + 1, t, p =>
    if p.bytes.isEmpty then ([], none)
    else
      match t.makeDirectory p with
      | .ok t => ([t], none)
      | .error .notFound =>
        match p.parent? with
        | none => ([], some .notFound)
        | some parent =>
          match makeDirectoriesUpTo fuel t parent with
          | (made, some fault) => (made, some fault)
          | (made, none) =>
            let above := made.getLastD t
            match above.makeDirectory p with
            | .ok t => (made ++ [t], none)
            | .error fault => (made, if above.isDirectory p then none else some fault)
      | .error fault => ([], if t.isDirectory p then none else some fault)

/-- The disks after each directory that is made to make a directory and those above it. -/
def directoriesMade (t : FileTree) (p : Path) : List FileTree :=
  (makeDirectoriesUpTo (p.components.length + 1) t p).1

/-- Makes a directory and those above it that are missing. -/
def makeDirectories (t : FileTree) (p : Path) : Except DiskFault FileTree :=
  match makeDirectoriesUpTo (p.components.length + 1) t p with
  | (made, none) => .ok (made.getLastD t)
  | (_, some fault) => .error fault

/-- The nodes below a location, moved to another one. -/
def moveBelow (t : FileTree) (src dst : Location) : FileTree :=
  let moved := t.nodes.entries.filter fun e => src.isPrefixOf e.1
  moved.foldl (fun t e => t.put (dst ++ e.1.drop src.length) e.2) (t.prune src)

/-- Gives a node another name; a file or an empty directory of that name gives
way. -/
def rename (t : FileTree) (src dst : Path) : Except DiskFault FileTree := do
  let (origin, n) ← match ← t.resolve false src with
    | .node loc n => pure (loc, n)
    | .vacant _ => throw .notFound
  match ← t.resolve false dst with
  | .vacant loc =>
    if origin.isPrefixOf loc then throw .invalidArgument else pure (t.moveBelow origin loc)
  | .node loc old =>
    if loc = origin then pure t
    else
      match n, old with
      | .directory, .directory =>
        if origin.isPrefixOf loc then throw .invalidArgument
        else if (t.children loc).isEmpty then pure (t.moveBelow origin loc)
        else throw .notEmpty
      | .directory, _ => throw .notDirectory
      | _, .directory => throw .isDirectory
      | _, _ => pure ((t.prune loc).moveBelow origin loc)

/-- Removes a file or a link. -/
def removeFile (t : FileTree) (p : Path) : Except DiskFault FileTree := do
  match ← t.resolve false p with
  | .node _ .directory => throw .isDirectory
  | .node loc _ => pure (t.prune loc)
  | .vacant _ => throw .notFound

/-- Removes an empty directory. -/
def removeDirectory (t : FileTree) (p : Path) : Except DiskFault FileTree := do
  match ← t.resolve false p with
  | .node loc .directory =>
    if loc.isEmpty then throw .invalidArgument
    else if (t.children loc).isEmpty then pure (t.prune loc)
    else throw .notEmpty
  | .node .. => throw .notDirectory
  | .vacant _ => throw .notFound

/-- Removes whatever is there, with all it holds. -/
def removeAll (t : FileTree) (p : Path) : FileTree :=
  match t.resolve false p with
  | .ok (.node loc _) => t.prune loc
  | _ => t

/-- Makes a link. -/
def makeLink (t : FileTree) (p target : Path) : Except DiskFault FileTree := do
  match ← t.resolve false p with
  | .node .. => throw .alreadyExists
  | .vacant loc => pure (t.put loc (.link target))

end FileTree

/-! ## 3. What is told about a file -/

/-- What tells an edit of a file from a mere notification about it. -/
structure Signature where
  modified : Nat
  length : Nat
  deriving DecidableEq, Repr

/-- What a look at a path finds. -/
inductive Sight where
  | missing
  | directory
  | file (signature : Signature)
  deriving DecidableEq, Repr

/-- A look at a path, all links followed. -/
def FileTree.look (t : FileTree) (p : Path) : Sight :=
  match t.find p with
  | .ok (_, .file content modified) => .file ⟨modified, content.length⟩
  | .ok (_, .directory) => .directory
  | _ => .missing

end AnalysisRunner
