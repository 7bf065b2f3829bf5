import AnalysisRunner.CommandLine.Arguments
import AnalysisRunner.Json.Basic

/-!
# What is shown

Results are JSON values.  They are shown as JSON over several lines, or in a plain
form: one line for each member, indented below the member that holds it.
-/

namespace AnalysisRunner

/-- How a piece of text stands out. -/
inductive Style where
  | heading
  | alarm
  | green
  | yellow
  | red
  | dim
  deriving DecidableEq, Repr

namespace Style

/-- The code that turns a style on. -/
def code : Style → String
  | .heading => "1;36"
  | .alarm => "1;31"
  | .green => "32"
  | .yellow => "33"
  | .red => "31"
  | .dim => "2"

/-- What turns all styles off. -/
def off : String :=
  "\x1b[0m"

/-- A text in a style, if styles are on.  Where the text itself turns styles off, the
style is turned on again. -/
def paint (style : Style) (on : Bool) (text : String) : String :=
  if on then
    let start := "\x1b[" ++ style.code ++ "m"
    start ++ text.replace off (off ++ start) ++ off
  else text

end Style

/-- Blanks in front of a line. -/
def indentation (depth : Nat) : String :=
  String.ofList (List.replicate (2 * depth) ' ')

/-- What stands after the colon of a member, unless its value is an object. -/
def memberText (styled : Bool) : Json → String
  | .string s => Style.green.paint styled s
  | .number n => Style.yellow.paint styled (String.ofList (Json.numberChars n))
  | .bool true => Style.green.paint styled "true"
  | .bool false => Style.red.paint styled "false"
  | .null => Style.dim.paint styled "none"
  | v => v.compact

/-- The lines of members in the plain form. -/
def memberLines (styled : Bool) (depth : Nat) : List (String × Json) → List String
  | [] => []
  | (key, .object members) :: rest =>
    (indentation depth ++ Style.heading.paint styled key ++ ":") ::
      (memberLines styled (depth + 1) members ++ memberLines styled depth rest)
  | (key, v) :: rest =>
    (indentation depth ++ Style.heading.paint styled key ++ ": " ++ memberText styled v) ::
      memberLines styled depth rest

/-- The lines of a value; members are shown in the order of their keys. -/
def OutputFormat.lines (format : OutputFormat) (styled : Bool) (v : Json) : List String :=
  match format, v.canonical with
  | .pretty, .object members => memberLines styled 0 members
  | _, v => [v.pretty]

end AnalysisRunner
