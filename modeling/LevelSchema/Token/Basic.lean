import LevelSchema.Source

/-!
# Tokens of schema text

Schema text is read line by line.  The blanks a line starts with become one **indent** token that
knows how many columns wide it is, so the grammar checks nesting without looking at the text again.
Everything else is a word, a number, a string, one of three signs, or a separator.

A `Lexeme` is a token at its place.  The keywords of the language are ordinary words as well: where
a name is expected they are names (`Token.asName?`).
-/

namespace LevelSchema

/-- The words with a meaning of their own. -/
inductive Keyword
  | abstractionLevel
  | parameter
  | object
  | extends
  | multiple
deriving DecidableEq

namespace Keyword

/-- The keywords of the language. -/
def all : List Keyword :=
  [.abstractionLevel, .parameter, .object, .extends, .multiple]

/-- How a keyword is written. -/
def spelling : Keyword → String
  | .abstractionLevel => "AbstractionLevel"
  | .parameter => "Parameter"
  | .object => "Object"
  | .extends => "extends"
  | .multiple => "Multiple"

/-- The keyword written as `word`. -/
def ofSpelling? (word : String) : Option Keyword :=
  all.find? fun k => k.spelling == word

end Keyword

/-- A token.  A string holds its decoded content, an integer its value, an indent its width in
columns, and a comment the text after its two slashes. -/
inductive Token
  | keyword (word : Keyword)
  | name (text : String)
  | string (content : String)
  | integer (value : UInt64)
  | equals
  | leftBracket
  | rightBracket
  | indent (width : Nat)
  | space
  | newline
  | comment (text : String)
deriving DecidableEq

namespace Token

/-- Whether a token only separates or explains. -/
def isTrivia : Token → Bool
  | .indent _ | .space | .newline | .comment _ => true
  | _ => false

/-- The name a token stands for where a name is expected. -/
def asName? : Token → Option String
  | .name text => some text
  | .keyword word => some word.spelling
  | _ => none

/-- A token as it is shown in a diagnostic. -/
def display : Token → String
  | .keyword word => word.spelling
  | .name text => text
  | .string content => "\"" ++ content ++ "\""
  | .integer value => toString value.toNat
  | .equals => "="
  | .leftBracket => "["
  | .rightBracket => "]"
  | .indent width => "indentation of " ++ toString width ++ " columns"
  | .space => "whitespace"
  | .newline => "newline"
  | .comment _ => "comment"

end Token

/-- A token at its place in the text. -/
structure Lexeme where
  token : Token
  span : Span
deriving DecidableEq

/-! ## Indentation -/

/-- Columns per level of nesting, and the width of a tab. -/
def indentWidth : Nat := 4

/-- A character that indents. -/
def isIndentChar (c : Char) : Bool :=
  c == ' ' || c == '\t'

/-- Columns taken by a run of indenting characters. -/
def columns : List Char → Nat
  | [] => 0
  | c :: cs => (if c == '\t' then indentWidth else 1) + columns cs

end LevelSchema
