import AnalysisRunner.Path.Basic
import AnalysisRunner.Table

/-!
# File trees

A disk as a value: a table from locations to nodes.  A location is the list of
names from the root, with no links and no dots in it; a node is a file, a directory
or a symbolic link.  There are no pipes, sockets or devices among the nodes.  The root is
a directory and is not in the table.  Relative paths start from the working directory.

Paths lead to locations by `FileTree.walk`, which goes name by name, follows links
as it meets them, and stops with a fault where a real disk would: at a name that
is not there, at a file that would have to be a directory, or after forty links.  The
target of a link may insist on a directory, as a path may, and then leads to nothing else.
-/

namespace AnalysisRunner

/-- The names from the root to a node. -/
abbrev Location := List Bytes

/-- What a location can hold. -/
inductive Node where
  /-- A file, and the time of its last modification in milliseconds. -/
  | file (content : Bytes) (modified : Nat)
  | directory
  | link (target : Path)
  deriving DecidableEq, Repr

/-- A disk. -/
structure FileTree where
  nodes : Table Location Node
  /-- The working directory, from which relative paths start. -/
  base : Location := []

/-- Why the disk refuses. -/
inductive DiskFault where
  | notFound
  | alreadyExists
  | notDirectory
  | isDirectory
  | invalidArgument
  /-- A name holds the byte that ends names. -/
  | invalidName
  | nameTooLong
  | notEmpty
  | tooManyLinks
  /-- The content of a file is not text. -/
  | notText
  deriving DecidableEq, Repr

namespace DiskFault

/-- The message of a fault. -/
def message : DiskFault → String
  | .notFound => "No such file or directory (os error 2)"
  | .alreadyExists => "File exists (os error 17)"
  | .notDirectory => "Not a directory (os error 20)"
  | .isDirectory => "Is a directory (os error 21)"
  | .invalidArgument => "Invalid argument (os error 22)"
  | .invalidName => "file name contained an unexpected NUL byte"
  | .nameTooLong => "File name too long (os error 36)"
  | .notEmpty => "Directory not empty (os error 39)"
  | .tooManyLinks => "Too many levels of symbolic links (os error 40)"
  | .notText => "stream did not contain valid UTF-8"

end DiskFault

/-- One move on the way to a location. -/
inductive Hop where
  | up
  | down (name : Bytes)
  deriving DecidableEq, Repr

/-- The moves that a path asks for. -/
def Path.hops (p : Path) : List Hop :=
  p.components.filterMap fun
    | .root => none
    | .current => none
    | .parent => some .up
    | .name bytes => some (.down bytes)

/-- Whether a path insists on a directory: it ends in a separator or in a dot. -/
def Path.isDirectoryOnly (p : Path) : Bool :=
  match (Path.segments p.bytes).getLast? with
  | some segment => segment = [] || segment = [dot]
  | none => false

/-- Whether the last segment of a path, separators aside, is a dot. -/
def Path.endsInDot (p : Path) : Bool :=
  ((Path.segments p.bytes).filter (· ≠ [])).getLast? = some [dot]

/-- The absolute path of a location. -/
def Location.path (loc : Location) : Path :=
  ⟨Path.spelling (.root :: loc.map .name)⟩

/-- Where a path leads. -/
inductive Place where
  /-- To a node. -/
  | node (loc : Location) (n : Node)
  /-- To a name that is free in a directory that exists. -/
  | vacant (loc : Location)
  deriving DecidableEq, Repr

/-- The place as a directory, if it is one. -/
def Place.asDirectory : Place → Except DiskFault Place
  | .node _ (.file ..) => .error .notDirectory
  | .vacant _ => .error .notFound
  | place => .ok place

/-- What the target of a link leads to, given where its moves do: at the end of a way, nothing but
a directory if the target insists on one. -/
def Path.allow (target : Path) (atEnd : Bool) (place : Except DiskFault Place) :
    Except DiskFault Place :=
  if atEnd && target.isDirectoryOnly then place.bind Place.asDirectory else place

namespace FileTree

/-- The disk with nothing on it, where one works at the root. -/
def empty : FileTree where
  nodes := .empty

instance : Inhabited FileTree :=
  ⟨empty⟩

/-- The node at a location. -/
def nodeAt? (t : FileTree) (loc : Location) : Option Node :=
  if loc = [] then some .directory else t.nodes.get? loc

/-- The longest name that a directory takes. -/
def maxNameLength : Nat := 255

/-- Follows moves from a directory, with a number of links that may still be
followed; a link that is the last move is followed only if `follow` is set. -/
def walk (t : FileTree) (follow : Bool) :
    Nat → Location → List Hop → Except DiskFault Place
  | _, cur, [] => .ok (.node cur .directory)
  | links, cur, .up :: rest => walk t follow links cur.dropLast rest
  | links, cur, .down name :: rest =>
    if maxNameLength < name.length then .error .nameTooLong
    else
      let loc := cur ++ [name]
      match t.nodes.get? loc with
      | none => if rest.isEmpty then .ok (.vacant loc) else .error .notFound
      | some .directory => walk t follow links loc rest
      | some (.file content modified) =>
        if rest.isEmpty then .ok (.node loc (.file content modified)) else .error .notDirectory
      | some (.link target) =>
        if rest.isEmpty && !follow then .ok (.node loc (.link target))
        else
          match links with
          | 0 => .error .tooManyLinks
          | links + 1 =>
            target.allow rest.isEmpty
              (walk t follow links (if target.isAbsolute then [] else cur) (target.hops ++ rest))
termination_by links _ hops => (links, hops.length)

/-- The number of links that one path may lead through. -/
def maxLinks : Nat := 40

/-- Where a path leads.  A path that insists on a directory follows its last link
and refuses a file. -/
def resolve (t : FileTree) (follow : Bool) (p : Path) : Except DiskFault Place :=
  if p.bytes.isEmpty then .error .notFound
  else if p.bytes.contains 0 then .error .invalidName
  else
    match t.walk (follow || p.isDirectoryOnly) maxLinks (if p.isAbsolute then [] else t.base)
        p.hops with
    | .ok (.node loc (.file content modified)) =>
      if p.isDirectoryOnly then .error .notDirectory
      else .ok (.node loc (.file content modified))
    | place => place

/-- The node that a path leads to, all links followed. -/
def find (t : FileTree) (p : Path) : Except DiskFault (Location × Node) :=
  match t.resolve true p with
  | .ok (.node loc n) => .ok (loc, n)
  | .ok (.vacant _) => .error .notFound
  | .error fault => .error fault

/-- Whether a path leads to a node. -/
def leads (t : FileTree) (p : Path) : Bool :=
  match t.find p with
  | .ok _ => true
  | .error _ => false

/-- Whether a path leads to a directory. -/
def isDirectory (t : FileTree) (p : Path) : Bool :=
  match t.find p with
  | .ok (_, .directory) => true
  | _ => false

/-- The absolute path without links and dots that a path leads to. -/
def canonical (t : FileTree) (p : Path) : Except DiskFault Path :=
  match t.find p with
  | .ok (loc, _) => .ok loc.path
  | .error fault => .error fault

/-- The names in a directory, with their nodes, in the order of their bytes. -/
def children (t : FileTree) (loc : Location) : List (Bytes × Node) :=
  let inside := t.nodes.entries.filterMap fun e =>
    match e.1.getLast? with
    | some name => if e.1.dropLast = loc then some (name, e.2) else none
    | none => none
  inside.mergeSort fun a b => Bytes.compare a.1 b.1 != .gt

end FileTree
end AnalysisRunner
