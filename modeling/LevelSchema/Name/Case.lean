/-!
# Names and the case they are written in

Declared names are written with a capital at the start of each word; the generated code wants
modules, fields and accessors in *snake case* and flag constants in *screaming snake case*.  Both
are computed here, character by character, for any text: case is an ASCII matter, and a character
outside ASCII passes through unchanged.

A word starts at a capital that follows a small letter or a digit, and at the last capital of a
run of capitals when a small letter comes next, so an acronym stays together.
-/

namespace LevelSchema.Name

/-! ## Identifiers -/

/-- A character that can stand first in an identifier. -/
def isStart (c : Char) : Bool :=
  c.isAlpha || c == '_'

/-- A character that can stand in an identifier after the first. -/
def isPart (c : Char) : Bool :=
  c.isAlphanum || c == '_'

/-- Whether a run of characters is an identifier: an ASCII letter or underscore, followed by any
number of ASCII letters, digits and underscores. -/
def isIdentifierChars : List Char → Bool
  | [] => false
  | c :: cs => isStart c && cs.all isPart

/-- Whether a text is an identifier. -/
def isIdentifier (s : String) : Bool :=
  isIdentifierChars s.toList

/-! ## Snake case -/

/-- Whether a new word starts at `c`, given its neighbours. -/
def startsWord (before : Option Char) (c : Char) (after : Option Char) : Bool :=
  c.isUpper &&
    match before with
    | none => false
    | some b => b.isLower || b.isDigit || (b.isUpper && after.any Char.isLower)

/-- Snake case of a run of characters, where `before` is the character in front of it. -/
def snakeFrom (before : Option Char) : List Char → List Char
  | [] => []
  | c :: cs =>
      let rest := c.toLower :: snakeFrom (some c) cs
      if startsWord before c cs.head? then '_' :: rest else rest

/-- The name in snake case. -/
def snake (s : String) : String :=
  String.ofList (snakeFrom none s.toList)

/-- The name in screaming snake case. -/
def screaming (s : String) : String :=
  String.ofList ((snakeFrom none s.toList).map Char.toUpper)

/-! ## Qualified names -/

/-- The name of `child` inside `parent`. -/
def nested (parent child : String) : String :=
  parent ++ "::" ++ child

end LevelSchema.Name
