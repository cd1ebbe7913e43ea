import LevelSchema.Text.Blank

/-!
# Lines of generated source

Generated source is a list of lines, each at a depth of nesting.  Documentation lines are kept apart
from lines of code, so that one can be told from the other without looking at the text.

A block is a header, its body one level deeper, and a closing brace.  Since a line knows its depth,
moving a piece of source inwards means moving each of its lines (`Line.indent`); blank lines have no
depth and stay empty.
-/

namespace LevelSchema.Code

/-- A line of generated source. -/
inductive Line
  | blank
  | code (depth : Nat) (text : String)
  | doc (depth : Nat) (text : String)
deriving DecidableEq

namespace Line

/-- The same line one level deeper. -/
def indent : Line → Line
  | .blank => .blank
  | .code depth text => .code (depth + 1) text
  | .doc depth text => .doc (depth + 1) text

/-- The spaces in front of a line. -/
def margin (depth : Nat) : String :=
  String.ofList (List.replicate (4 * depth) ' ')

/-- A line as it is written, without its line feed. -/
def render : Line → String
  | .blank => ""
  | .code depth text => margin depth ++ text
  | .doc depth text => margin depth ++ (if text.isEmpty then "///" else "/// " ++ text)

end Line

/-- A line of code at the outermost level. -/
def code (text : String) : Line :=
  .code 0 text

/-- A line of documentation at the outermost level. -/
def doc (text : String) : Line :=
  .doc 0 text

/-- A description as documentation, line by line and without blanks at the end of a line. -/
def docs : Option String → List Line
  | none => []
  | some text => (Text.lines text.toList).map fun l => doc (String.ofList (Text.trimEnd l))

/-- A header with a body in braces. -/
def block (header : String) (body : List Line) : List Line :=
  code (header ++ " \x7b") :: body.map Line.indent ++ [code "\x7d"]

/-- A header with a body in braces, on one line if the body is empty. -/
def blockOrEmpty (header : String) (body : List Line) : List Line :=
  if body.isEmpty then [code (header ++ " \x7b\x7d")] else block header body

/-- Pieces of source with a blank line between two of them. -/
def separated : List (List Line) → List Line
  | [] => []
  | [piece] => piece
  | piece :: pieces => piece ++ .blank :: separated pieces

/-- The text of a list of lines. -/
def text (lines : List Line) : String :=
  String.join (lines.map fun l => l.render ++ "\n")

end LevelSchema.Code
