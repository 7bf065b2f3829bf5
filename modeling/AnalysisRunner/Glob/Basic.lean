/-!
# Glob patterns

A pattern is a list of parts, and a group of alternatives holds patterns again.
This module reads the text of a pattern.

Reading goes from left to right with the branch under construction and the
enclosing groups as its state.  Two asterisks are special only where they stand
for whole components: at the front of a branch before a separator, between
separators, or after a separator at the end of a branch; anywhere else they are
two asterisks.  Inside brackets nothing is special but the closing bracket, which
does not close as the first member, and the hyphen.
-/

namespace AnalysisRunner
namespace Glob

/-- A part of a pattern. -/
inductive Part where
  /-- A character, matched by its bytes. -/
  | literal (c : Char)
  /-- Any one byte. -/
  | any
  /-- Any bytes. -/
  | star
  /-- Any components in front, with the separator after them, or none. -/
  | anyDepth
  /-- A separator and all that follows. -/
  | inside
  /-- A separator, or any components between two separators. -/
  | between
  /-- One byte of a class, or one byte outside of it. -/
  | oneOf (negated : Bool) (ranges : List (Char × Char))
  /-- One of several patterns. -/
  | choice (branches : List (List Part))
  deriving Repr

/-- Why a text is no pattern. -/
inductive Fault where
  | unclosedClass
  | invalidRange (low high : Char)
  | unopenedGroup
  | unclosedGroup
  | danglingEscape
  deriving DecidableEq, Repr

namespace Fault

/-- The reason in words. -/
def reason : Fault → String
  | .unclosedClass => "unclosed character class; missing ']'"
  | .invalidRange low high =>
    "invalid range; '" ++ String.singleton low ++ "' > '" ++ String.singleton high ++ "'"
  | .unopenedGroup =>
    "unopened alternate group; missing '\x7b' (maybe escape '\x7d' with '[\x7d]'?)"
  | .unclosedGroup =>
    "unclosed alternate group; missing '\x7d' (maybe escape '\x7b' with '[\x7b]'?)"
  | .danglingEscape => "dangling '\\'"

/-- The message about a pattern. -/
def message (pattern : String) (f : Fault) : String :=
  "error parsing glob '" ++ pattern ++ "': " ++ f.reason

end Fault

/-- A group that is open: the branches that are finished, newest first, and the
branch in which the group stands. -/
structure Group where
  finished : List (List Part)
  outer : List Part

/-- The state of the reader. -/
structure Builder where
  /-- The branch under construction, newest part first. -/
  branch : List Part
  /-- The groups that are open, innermost first. -/
  groups : List Group
  /-- The character read last. -/
  last : Option Char

namespace Builder

/-- Adds a part, read up to a given character. -/
def push (b : Builder) (part : Part) (last : Char) : Builder :=
  { b with branch := part :: b.branch, last := some last }

/-- Adds two asterisks that are not special. -/
def pushStars (b : Builder) : Builder :=
  { b with branch := .star :: .star :: b.branch, last := some '*' }

/-- Opens a group. -/
def openGroup (b : Builder) : Builder :=
  ⟨[], ⟨[], b.branch⟩ :: b.groups, some '{'⟩

/-- Begins the next branch of the innermost group; outside of groups a comma is a
character. -/
def nextBranch (b : Builder) : Builder :=
  match b.groups with
  | [] => b.push (.literal ',') ','
  | g :: gs => ⟨[], ⟨b.branch.reverse :: g.finished, g.outer⟩ :: gs, some ','⟩

/-- Closes the innermost group. -/
def closeGroup (b : Builder) : Except Fault Builder :=
  match b.groups with
  | [] => .error .unopenedGroup
  | g :: gs =>
    .ok ⟨.choice (b.branch.reverse :: g.finished).reverse :: g.outer, gs, some '}'⟩

/-- Two asterisks at the front of a branch. -/
def pushAnyDepth (b : Builder) (last : Char) : Builder :=
  b.push .anyDepth last

/-- Two asterisks after a separator take the place of the separator; after other
such parts they add nothing. -/
def pushDeep (b : Builder) (part : Part) (last : Char) : Builder :=
  match b.branch with
  | .anyDepth :: _ => { b with last := some last }
  | .inside :: _ => { b with last := some last }
  | _ :: rest => { b with branch := part :: rest, last := some last }
  | [] => b.push part last

/-- Whether two asterisks here may stand for components: they follow a separator,
or begin a branch of a group. -/
def mayGoDeep (b : Builder) : Bool :=
  b.last = some '/' || (!b.groups.isEmpty && (b.last = some ',' || b.last = some '{'))

end Builder

/-- A class under construction. -/
structure ClassBuilder where
  negated : Bool
  /-- The ranges read, newest first. -/
  ranges : List (Char × Char)
  /-- No member has been read. -/
  first : Bool
  /-- A hyphen waits for the high end of the newest range. -/
  inRange : Bool

namespace ClassBuilder

/-- Takes the high end of the newest range. -/
def close (k : ClassBuilder) (c : Char) : Except Fault ClassBuilder :=
  match k.ranges with
  | (low, _) :: rest =>
    if c < low then .error (.invalidRange low c)
    else .ok { k with ranges := (low, c) :: rest, first := false, inRange := false }
  | [] => .ok { k with ranges := [(c, c)], first := false, inRange := false }

/-- Takes a member other than the closing bracket. -/
def member (k : ClassBuilder) (c : Char) : Except Fault ClassBuilder :=
  if k.inRange then k.close c
  else if c = '-' ∧ ¬ k.first then .ok { k with inRange := true }
  else .ok { k with ranges := (c, c) :: k.ranges, first := false }

/-- The class; a hyphen at the end is a member. -/
def part (k : ClassBuilder) : Part :=
  let ranges := if k.inRange then ('-', '-') :: k.ranges else k.ranges
  .oneOf k.negated ranges.reverse

end ClassBuilder

/-- Reads a pattern from a given state; inside brackets the class under
construction is part of it. -/
def read : Option ClassBuilder → Builder → List Char → Except Fault Builder
  | none, b, [] => .ok b
  | some _, _, [] => .error .unclosedClass
  | some k, b, ']' :: rest =>
    if k.first then do read (some (← k.member ']')) b rest
    else read none (b.push k.part ']') rest
  | some k, b, c :: rest => do read (some (← k.member c)) b rest
  | none, b, '?' :: rest => read none (b.push .any '?') rest
  | none, b, '*' :: '*' :: '/' :: rest =>
    if b.branch.isEmpty then read none (b.pushAnyDepth '/') rest
    else if b.mayGoDeep then read none (b.pushDeep .between '/') rest
    else read none (b.pushStars.push (.literal '/') '/') rest
  | none, b, ['*', '*'] =>
    if b.branch.isEmpty then .ok (b.pushAnyDepth '*')
    else if b.mayGoDeep then .ok (b.pushDeep .inside '*')
    else .ok b.pushStars
  | none, b, '*' :: '*' :: c :: rest =>
    if !b.branch.isEmpty && b.mayGoDeep && !b.groups.isEmpty && (c = ',' || c = '}') then
      read none (b.pushDeep .inside '*') (c :: rest)
    else read none b.pushStars (c :: rest)
  | none, b, '*' :: rest => read none (b.push .star '*') rest
  | none, b, '[' :: '!' :: rest => read (some ⟨true, [], true, false⟩) b rest
  | none, b, '[' :: '^' :: rest => read (some ⟨true, [], true, false⟩) b rest
  | none, b, '[' :: rest => read (some ⟨false, [], true, false⟩) b rest
  | none, b, '{' :: rest => read none b.openGroup rest
  | none, b, '}' :: rest => do read none (← b.closeGroup) rest
  | none, b, ',' :: rest => read none b.nextBranch rest
  | none, _, ['\\'] => .error .danglingEscape
  | none, b, '\\' :: c :: rest => read none (b.push (.literal c) c) rest
  | none, b, c :: rest => read none (b.push (.literal c) c) rest

end Glob

/-- A pattern. -/
structure Glob where
  parts : List Glob.Part
  deriving Repr

namespace Glob

/-- The pattern of a text. -/
def ofText (text : String) : Except Fault Glob := do
  let b ← read none ⟨[], [], none⟩ text.toList
  if b.groups.isEmpty then pure ⟨b.branch.reverse⟩ else throw .unclosedGroup

end Glob
end AnalysisRunner
