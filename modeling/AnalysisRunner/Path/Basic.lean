import AnalysisRunner.Text.Utf8

/-!
# Paths

A path is a spelling: bytes in which `/` separates.  What it names is its list of
components, in which repeated separators, a separator at the end and a lone dot
that is not the first component leave no trace, while `..` is kept.  Two spellings
of one component list are the same key in every table, and paths are ordered
component by component.

Some operations answer with a part of the spelling and not with components
(`parent?`, `relativeTo`), so a component is found together with the stretch of
bytes that spells it (`Path.spans`).
-/

namespace AnalysisRunner

/-- A path as spelled. -/
structure Path where
  bytes : Bytes
  deriving DecidableEq, Repr

/-- What a path is made of. -/
inductive Component where
  /-- The separator in front of an absolute path. -/
  | root
  /-- A dot in front of a relative path. -/
  | current
  /-- Two dots. -/
  | parent
  /-- Any other name. -/
  | name (bytes : Bytes)
  deriving DecidableEq, Repr

/-- The separator. -/
def slash : UInt8 := 47

/-- The dot. -/
def dot : UInt8 := 46

namespace Component

/-- The place of a component's kind in the order of paths. -/
def rank : Component → Nat
  | .root => 0
  | .current => 1
  | .parent => 2
  | .name _ => 3

/-- The order of components: kinds first, then names by their bytes. -/
def compare : Component → Component → Ordering
  | .name a, .name b => Bytes.compare a b
  | a, b => if a.rank < b.rank then .lt else if b.rank < a.rank then .gt else .eq

/-- The bytes that spell a component. -/
def bytes : Component → Bytes
  | .root => [slash]
  | .current => [dot]
  | .parent => [dot, dot]
  | .name bytes => bytes

end Component

/-- A component list, ordered component by component. -/
abbrev PathKey := List Component

/-- The order of paths. -/
def PathKey.compare : PathKey → PathKey → Ordering
  | [], [] => .eq
  | [], _ :: _ => .lt
  | _ :: _, [] => .gt
  | a :: as, b :: bs =>
    match Component.compare a b with
    | .eq => PathKey.compare as bs
    | order => order

/-- Whether one key does not come after another. -/
def PathKey.le (a b : PathKey) : Bool :=
  PathKey.compare a b != .gt

/-- A component and the stretch of bytes that spells it. -/
structure Span where
  component : Component
  start : Nat
  stop : Nat
  deriving DecidableEq, Repr

namespace Path

/-- The path that a text spells. -/
def ofText (text : String) : Path :=
  ⟨Bytes.ofText text⟩

/-- The text shown for a path. -/
def shown (p : Path) : String :=
  p.bytes.shown

/-- The stretches between separators. -/
def segments : Bytes → List Bytes
  | [] => [[]]
  | b :: rest =>
    if b = slash then [] :: segments rest
    else
      match segments rest with
      | [] => [[b]]
      | s :: ss => (b :: s) :: ss

/-- The component that a segment stands for, if it is not the first one. -/
def component? (segment : Bytes) : Option Component :=
  if segment = [] ∨ segment = [dot] then none
  else if segment = [dot, dot] then some .parent
  else some (.name segment)

/-- The spans of segments that begin at a given offset. -/
def spansFrom : Nat → List Bytes → List Span
  | _, [] => []
  | start, segment :: rest =>
    let tail := spansFrom (start + segment.length + 1) rest
    match component? segment with
    | some c => ⟨c, start, start + segment.length⟩ :: tail
    | none => tail

/-- The components of a path, each with its stretch of bytes. -/
def spans (p : Path) : List Span :=
  let parts := segments p.bytes
  let first : List Span :=
    if p.bytes.head? = some slash then [⟨.root, 0, 1⟩]
    else if parts.head? = some [dot] then [⟨.current, 0, 1⟩]
    else []
  first ++ spansFrom 0 parts

/-- The components of a path: what it names. -/
def components (p : Path) : PathKey :=
  p.spans.map Span.component

/-- Whether two spellings name the same path. -/
def same (p q : Path) : Bool :=
  p.components = q.components

/-- The order of paths. -/
def le (p q : Path) : Bool :=
  PathKey.le p.components q.components

/-- Whether a path begins with the components of another. -/
def startsWith (p base : Path) : Bool :=
  base.components.isPrefixOf p.components

/-- The bytes of a path from one offset to another. -/
def slice (p : Path) (start stop : Nat) : Path :=
  ⟨(p.bytes.take stop).drop start⟩

/-- The part of a path after the components of `base`, as spelled; `none` if the
path does not begin with them. -/
def strip? (p base : Path) : Option Path :=
  if p.startsWith base then
    let count := base.components.length
    match p.spans.drop count, p.spans.getLast? with
    | first :: _, some last =>
      some (p.slice (if count = 0 then 0 else first.start) last.stop)
    | _, _ => some ⟨[]⟩
  else none

/-- The path without its last component, as spelled; the root and the empty path
have none. -/
def parent? (p : Path) : Option Path :=
  match p.spans.reverse with
  | [] => none
  | last :: before =>
    if last.component = .root then none
    else
      match before with
      | [] => some ⟨[]⟩
      | s :: _ => some (p.slice 0 s.stop)

/-- The last component, if it is a name. -/
def fileName? (p : Path) : Option Bytes :=
  match p.components.getLast? with
  | some (.name bytes) => some bytes
  | _ => none

/-- The extension of a file name: what follows its last dot, unless that dot is
its first byte. -/
def extensionOf? (name : Bytes) : Option Bytes :=
  let after := (name.reverse.takeWhile (· != dot)).reverse
  let before := name.length - after.length
  if before ≤ 1 then none else some after

/-- The extension of a path. -/
def extension? (p : Path) : Option Bytes :=
  p.fileName?.bind extensionOf?

/-- Whether a path begins at the root. -/
def isAbsolute (p : Path) : Bool :=
  p.bytes.head? = some slash

/-- A path inside another one; an absolute path stays as it is. -/
def join (dir p : Path) : Path :=
  if p.isAbsolute ∨ dir.bytes = [] then p
  else if dir.bytes.getLast? = some slash then ⟨dir.bytes ++ p.bytes⟩
  else ⟨dir.bytes ++ slash :: p.bytes⟩

/-! ## Keys of files -/

/-- The spelling of a component list. -/
def spelling : PathKey → Bytes
  | [] => []
  | [c] => c.bytes
  | .root :: rest => slash :: spelling rest
  | c :: rest => c.bytes ++ slash :: spelling rest

/-- The canonical key of a path: its components spelled once, as shown. -/
def normal (p : Path) : String :=
  (spelling p.components).shown

end Path
end AnalysisRunner
