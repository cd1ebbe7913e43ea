import LevelSchema.Name.Case
import LevelSchema.Source

/-!
# Schemas

A schema holds levels, parameter types and object types as they are declared, sorted by kind, with
the values of members worked out.  Inheritance is not applied yet: what a level or an object type
extends, and the types of properties, are still names.

A declared type is identified by its `TypePath`, the name of its level and its own.  A `TypeRef` is
a property's type: just a name at first, and later the declaration or primitive it stands for.
-/

namespace LevelSchema

/-! ## Types by name -/

/-- A type by the level that declares it and its name there. -/
structure TypePath where
  level : String
  name : String
deriving DecidableEq

/-- The path as one name. -/
def TypePath.qualified (p : TypePath) : String :=
  Name.nested p.level p.name

/-- What the type of a property refers to. -/
inductive TypeRef
  | unresolved (name : String)
  | primitive (name : String)
  | parameter (path : TypePath)
  | object (path : TypePath)
deriving DecidableEq

namespace TypeRef

/-- The name of the type without its level. -/
def name : TypeRef → String
  | .unresolved n | .primitive n => n
  | .parameter p | .object p => p.name

/-- Whether it is known what the reference stands for. -/
def isResolved : TypeRef → Bool
  | .unresolved _ => false
  | _ => true

end TypeRef

/-! ## Declarations -/

/-- The two kinds of parameter types: one member at a time, or any combination of members. -/
inductive ParameterKind
  | enumeration
  | flagSet
deriving DecidableEq

/-- The name of a kind. -/
def ParameterKind.label : ParameterKind → String
  | .enumeration => "enumeration"
  | .flagSet => "flag set"

/-- A member of a parameter type. -/
structure Member where
  name : Located String
  value : UInt32
  description : Option String
deriving DecidableEq

/-- A parameter type. -/
structure ParameterType where
  name : Located String
  kind : ParameterKind
  description : Option String
  members : List Member
  span : Span
deriving DecidableEq

/-- A property of an object type. -/
structure Property where
  name : Located String
  type : Located TypeRef
  description : Option String
deriving DecidableEq

/-- An object type. -/
structure ObjectType where
  name : Located String
  description : Option String
  parent : Option (Located String)
  properties : List Property
  span : Span
deriving DecidableEq

/-- An abstraction level. -/
structure Level where
  name : Located String
  description : Option String
  parent : Option (Located String)
  parameterTypes : List ParameterType
  objectTypes : List ObjectType
  span : Span
deriving DecidableEq

namespace Level

/-- The first object type of the level with the given name. -/
def objectType? (l : Level) (name : String) : Option ObjectType :=
  l.objectTypes.find? fun o => o.name.value == name

/-- The first parameter type of the level with the given name. -/
def parameterType? (l : Level) (name : String) : Option ParameterType :=
  l.parameterTypes.find? fun p => p.name.value == name

/-- Whether the level declares a type with the given name. -/
def declares (l : Level) (name : String) : Bool :=
  (l.objectType? name).isSome || (l.parameterType? name).isSome

end Level

/-- A schema: its levels in the order of their declaration. -/
structure Schema where
  levels : List Level
deriving DecidableEq

end LevelSchema
