import AnalysisRunner.Glob.Match
import AnalysisRunner.Path.Basic

/-!
# Which files are watched

A file qualifies by its extension, unless a pattern matches its path relative to
the watched directory or any single name of that relative path; so the pattern
`node_modules` excludes a whole directory.
-/

namespace AnalysisRunner

/-- The rule by which files are watched. -/
structure Filter where
  extensions : List String
  ignored : List Glob

namespace Filter

/-- The rule of a list of extensions, with or without dots in front, and a list of
patterns; a text that is no pattern is reported with its fault. -/
def ofTexts (extensions ignored : List String) : Except (String × Glob.Fault) Filter := do
  let globs ← ignored.mapM fun text =>
    match Glob.ofText text with
    | .ok g => Except.ok g
    | .error fault => Except.error (text, fault)
  pure ⟨extensions.map fun e => String.ofList (e.toList.dropWhile (· == '.')), globs⟩

/-- Whether a path has one of the extensions. -/
def hasExtension (f : Filter) (p : Path) : Bool :=
  match p.extension?.bind Bytes.text? with
  | some ext => f.extensions.contains ext
  | none => false

/-- Whether a pattern matches. -/
def isMatch (f : Filter) (bytes : Bytes) : Bool :=
  f.ignored.any fun g => g.isMatch bytes

/-- Whether a component is a name that a pattern matches. -/
def ignoresComponent (f : Filter) : Component → Bool
  | .name bytes => f.isMatch bytes
  | _ => false

/-- Whether a path is ignored, seen from a watched directory. -/
def isIgnored (f : Filter) (p root : Path) : Bool :=
  let relative := (p.strip? root).getD p
  f.isMatch relative.bytes || relative.components.any f.ignoresComponent

/-- Whether a path qualifies, seen from a watched directory. -/
def accepts (f : Filter) (p root : Path) : Bool :=
  f.hasExtension p && !f.isIgnored p root

end Filter
end AnalysisRunner
