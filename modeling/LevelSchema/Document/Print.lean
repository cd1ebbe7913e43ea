import LevelSchema.Document.Basic
import LevelSchema.Token.Basic

/-!
# Writing documents

The canonical text of a document: one declaration on a line, indented by spaces, with its
description as a string on the line before, and every clause where there is one.
-/

namespace LevelSchema

namespace Document

/-! ## Words and lines -/

/-- A character as it is written inside a string. -/
def escaped : Char → List Char
  | '\n' => ['\\', 'n']
  | '\\' => ['\\', '\\']
  | '"' => ['\\', '"']
  | c => [c]

/-- A text as a string. -/
def quoted (text : String) : List Char :=
  '"' :: text.toList.flatMap escaped ++ ['"']

/-- A line at some depth. -/
def line (depth : Nat) (cs : List Char) : List Char :=
  List.replicate (depth * indentWidth) ' ' ++ cs ++ ['\n']

/-- The line of a description, if there is one. -/
def descriptionLine (depth : Nat) : Option Description → List Char
  | none => []
  | some d => line depth (quoted d.value)

/-- A keyword and the name it introduces. -/
def introduced (word : Keyword) (name : Located String) : List Char :=
  word.spelling.toList ++ ' ' :: name.value.toList

/-- The clause that names what is extended. -/
def extendsText : Option (Located String) → List Char
  | none => []
  | some parent => ' ' :: introduced .extends parent

/-- The mark of a flag set. -/
def markText (multiple : Bool) : List Char :=
  if multiple then ' ' :: '[' :: Keyword.multiple.spelling.toList ++ [']'] else []

/-- The value of a member. -/
def valueText : Option (Located UInt64) → List Char
  | none => []
  | some value => ' ' :: '=' :: ' ' :: Nat.toDigits 10 value.value.toNat

end Document

open Document

/-! ## Declarations -/

/-- The text of a member. -/
def MemberDecl.print (m : MemberDecl) : List Char :=
  descriptionLine 2 m.description ++ line 2 (m.name.value.toList ++ valueText m.value)

/-- The text of a parameter type. -/
def ParameterDecl.print (p : ParameterDecl) : List Char :=
  descriptionLine 1 p.description ++
    line 1 (introduced .parameter p.name ++ markText p.multiple) ++
    p.members.flatMap MemberDecl.print

/-- The text of a property. -/
def PropertyDecl.print (p : PropertyDecl) : List Char :=
  descriptionLine 2 p.description ++
    line 2 (p.typeName.value.toList ++ ' ' :: p.name.value.toList)

/-- The text of an object type. -/
def ObjectDecl.print (o : ObjectDecl) : List Char :=
  descriptionLine 1 o.description ++
    line 1 (introduced .object o.name ++ extendsText o.parent) ++
    o.properties.flatMap PropertyDecl.print

/-- The text of a declaration inside a level. -/
def LevelItem.print : LevelItem → List Char
  | .parameter p => p.print
  | .object o => o.print

/-- The text of a level. -/
def LevelDecl.print (l : LevelDecl) : List Char :=
  descriptionLine 0 l.description ++
    line 0 (introduced .abstractionLevel l.name ++ extendsText l.parent) ++
    l.items.flatMap LevelItem.print

/-- The canonical text of a document. -/
def Document.print (d : Document) : String :=
  String.ofList (d.levels.flatMap LevelDecl.print)

end LevelSchema
