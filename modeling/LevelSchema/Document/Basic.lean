import LevelSchema.Source

/-!
# Documents

A document is a schema as it is written: the declarations of a text in their order, every name at
its place, nothing checked beyond the grammar.  Level items keep the order in which parameter and
object declarations stand among each other.

The span of a declaration runs from its keyword over its name to the name of the last thing
declared in it.
-/

namespace LevelSchema

/-- A description line above a declaration. -/
abbrev Description := Located String

/-- A member of a parameter type, with its value if one is written. -/
structure MemberDecl where
  description : Option Description
  name : Located String
  value : Option (Located UInt64)
deriving DecidableEq

/-- A parameter type: an enumeration, or a flag set if it is marked as multiple. -/
structure ParameterDecl where
  description : Option Description
  name : Located String
  multiple : Bool
  members : List MemberDecl
  span : Span
deriving DecidableEq

/-- A property of an object type. -/
structure PropertyDecl where
  description : Option Description
  typeName : Located String
  name : Located String
deriving DecidableEq

/-- An object type, with the type it extends if one is named. -/
structure ObjectDecl where
  description : Option Description
  name : Located String
  parent : Option (Located String)
  properties : List PropertyDecl
  span : Span
deriving DecidableEq

/-- A declaration inside a level. -/
inductive LevelItem
  | parameter (decl : ParameterDecl)
  | object (decl : ObjectDecl)
deriving DecidableEq

namespace LevelItem

/-- The name of the declared type. -/
def name : LevelItem → Located String
  | .parameter p => p.name
  | .object o => o.name

/-- The place of the declaration. -/
def span : LevelItem → Span
  | .parameter p => p.span
  | .object o => o.span

end LevelItem

/-- An abstraction level, with the level it extends if one is named. -/
structure LevelDecl where
  description : Option Description
  name : Located String
  parent : Option (Located String)
  items : List LevelItem
  span : Span
deriving DecidableEq

/-- A whole schema text. -/
structure Document where
  levels : List LevelDecl
deriving DecidableEq

/-- The smallest span that covers `first` and all of `others`. -/
def coverAll (first : Span) (others : List Span) : Span :=
  others.foldl Span.union first

end LevelSchema
