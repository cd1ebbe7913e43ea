import LevelSchema.Lineage
import LevelSchema.Resolved.Scope

/-!
# Binding names

Once scopes are known, the names that object types use can be bound: what an object type extends
must be an object type in the scope of its level, and the type of a property must be a type in that
scope or a primitive.  A name that cannot be bound is reported, and the link or property is left
out of what follows.
-/

namespace LevelSchema

/-- An object type with its names bound. -/
structure BoundObject where
  decl : ObjectType
  parent : Option TypePath
  properties : List ResolvedProperty

/-- Object types with their names bound, in the order of their levels and declarations. -/
structure Bindings where
  objects : List (TypePath × BoundObject)

namespace Bindings

/-- The paths that are bound, each where it first stands. -/
def paths (b : Bindings) : List TypePath :=
  keepFirst (b.objects.map (·.1))

/-- The object type bound to a path; of several the last. -/
def get? (b : Bindings) (path : TypePath) : Option BoundObject :=
  b.objects.reverse.lookup path

/-- The object type that the one at `path` extends. -/
def parent? (b : Bindings) (path : TypePath) : Option TypePath :=
  b.get? path >>= (·.parent)

/-- Which object type extends which. -/
def forest (b : Bindings) : Forest TypePath :=
  .ofParent b.paths b.parent?

end Bindings

namespace Resolve

/-- The first level that declares a type with the given name. -/
def levelDeclaring? (s : Schema) (name : String) : Option String :=
  (s.levels.find? (·.declares name)).map (·.name.value)

/-- Bind what an object type extends. -/
def bindParent (s : Schema) (scope : Scope) (path : TypePath) (o : ObjectType) :
    Check (Option TypePath) :=
  match o.parent with
  | none => pure none
  | some parent =>
      match scope.lookup parent.value with
      | some ⟨target, .object, _⟩ => pure (some target)
      | some ⟨target, .parameter, span⟩ => do
          Noted.note (.extendsParameterType path parent ⟨target, .parameter, span⟩)
          return none
      | none => do
          Noted.note (.extendsUnknownType path parent (levelDeclaring? s parent.value))
          return none

/-- What a type name stands for in a scope. -/
def typeRef? (primitives : PrimitiveSet) (scope : Scope) (name : String) : Option TypeRef :=
  match scope.lookup name with
  | some ⟨target, .parameter, _⟩ => some (.parameter target)
  | some ⟨target, .object, _⟩ => some (.object target)
  | none => if primitives.contains name then some (.primitive name) else none

/-- Bind the type of each property; properties of unknown type are left out. -/
def bindProperties (s : Schema) (primitives : PrimitiveSet) (scope : Scope) (path : TypePath) :
    List Property → Check (List ResolvedProperty)
  | [] => pure []
  | p :: ps =>
      match typeRef? primitives scope p.type.value.name with
      | some type => do
          let rest ← bindProperties s primitives scope path ps
          return ⟨p.name.value, type, p.description, path, p.name.span⟩ :: rest
      | none => do
          let typeName := p.type.map TypeRef.name
          Noted.note
            (.unknownPropertyType path p.name.value typeName (levelDeclaring? s typeName.value))
          bindProperties s primitives scope path ps

/-- Bind the names of an object type. -/
def bindObject (s : Schema) (primitives : PrimitiveSet) (scope : Scope) (level : String)
    (o : ObjectType) : Check (TypePath × BoundObject) := do
  let path : TypePath := ⟨level, o.name.value⟩
  let parent ← bindParent s scope path o
  let properties ← bindProperties s primitives scope path o.properties
  return (path, ⟨o, parent, properties⟩)

/-- Bind the names of all object types of the given levels. -/
def bindings (s : Schema) (primitives : PrimitiveSet) (scopes : Scopes) (levels : List Level) :
    Check Bindings := do
  let objects ← Noted.each
    (fun l => Noted.each
      (bindObject s primitives (scopes.of l.name.value) l.name.value) l.objectTypes) levels
  return ⟨objects.flatten⟩

end Resolve

end LevelSchema
