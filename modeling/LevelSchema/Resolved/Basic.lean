import LevelSchema.Schema.Basic

/-!
# Resolved schemas

A resolved schema is a schema with inheritance applied.  Levels stand in an order in which each
comes after the level it extends; every level knows its ancestors and all collections of its
aggregate; every object type lists its own properties after those it inherits, with what their types
refer to.

Ancestors are listed from the root down, so the parent is the last of them.
-/

namespace LevelSchema

/-- A property of an object type, its own or an inherited one. -/
structure ResolvedProperty where
  name : String
  type : TypeRef
  description : Option String
  declaredIn : TypePath
  span : Span
deriving DecidableEq

/-- The property under its qualified name. -/
def ResolvedProperty.qualified (p : ResolvedProperty) : String :=
  Name.nested p.declaredIn.qualified p.name

/-- An object type with everything it inherits. -/
structure ResolvedObject where
  path : TypePath
  description : Option String
  span : Span
  ancestors : List TypePath
  properties : List ResolvedProperty
deriving DecidableEq

/-- The object type that this one extends. -/
def ResolvedObject.parent? (o : ResolvedObject) : Option TypePath :=
  o.ancestors.getLast?

/-- The collection of all objects of one type in the aggregate of a level. -/
structure Collection where
  object : TypePath
deriving DecidableEq

namespace Collection

/-- The name of the collection. -/
def name (c : Collection) : String :=
  c.object.name ++ "Collection"

/-- The level whose aggregate stores the collection. -/
def declaredIn (c : Collection) : String :=
  c.object.level

/-- The generated name under which the collection is reached. -/
def accessor (c : Collection) : String :=
  Name.snake c.name

end Collection

/-- A level with everything it inherits. -/
structure ResolvedLevel where
  name : String
  description : Option String
  span : Span
  ancestors : List String
  parameterTypes : List ParameterType
  objectTypes : List ResolvedObject
  collections : List Collection
deriving DecidableEq

namespace ResolvedLevel

/-- The level that this one extends. -/
def parent? (l : ResolvedLevel) : Option String :=
  l.ancestors.getLast?

/-- The collections that the level declares itself. -/
def ownCollections (l : ResolvedLevel) : List Collection :=
  l.collections.filter fun c => c.declaredIn == l.name

end ResolvedLevel

/-- A resolved schema. -/
structure ResolvedSchema where
  levels : List ResolvedLevel
deriving DecidableEq

namespace ResolvedSchema

/-- The first level with the given name. -/
def level? (s : ResolvedSchema) (name : String) : Option ResolvedLevel :=
  s.levels.find? fun l => l.name == name

/-- The object type at the given path. -/
def objectType? (s : ResolvedSchema) (path : TypePath) : Option ResolvedObject := do
  let level ← s.level? path.level
  level.objectTypes.find? fun o => o.path == path

/-- The parameter type at the given path. -/
def parameterType? (s : ResolvedSchema) (path : TypePath) : Option ParameterType := do
  let level ← s.level? path.level
  level.parameterTypes.find? fun p => p.name.value == path.name

end ResolvedSchema

end LevelSchema
