import LevelSchema.Resolved.Binding

/-!
# Flattening object types

An object type has the properties of what it extends, and then its own.  Generated code turns each
property into a field with a getter of the same name and a setter, so along a chain no two
properties may have the same snake-case name, and none may be named like the setter of another.  A
property that does is reported and left out, so that it is reported once and not again for each type
that extends its owner.

Object types are taken in an order in which each comes after the one it extends.  Those on a cycle
of `extends` links, or below one, have no such place and are left out.
-/

namespace LevelSchema

/-- What an object type inherits and declares: its ancestors from the root down, and the properties
of them all followed by its own. -/
structure Flattened where
  ancestors : List TypePath
  properties : List ResolvedProperty

namespace ResolvedProperty

/-- The generated name of the field and of its getter. -/
def field (p : ResolvedProperty) : String :=
  Name.snake p.name

/-- The generated name of the setter. -/
def setter (p : ResolvedProperty) : String :=
  "set_" ++ p.field

/-- Whether a getter of one property has the name of the setter of the other. -/
def sharesAccessor (p q : ResolvedProperty) : Bool :=
  p.field == q.setter || q.field == p.setter

end ResolvedProperty

namespace Resolve

/-- Add the properties `own` of an object type to those accepted so far, of which the first
`inherited` come from its ancestors. -/
def addProperties (object : TypePath) (inherited accepted : List ResolvedProperty) :
    List ResolvedProperty → Check (List ResolvedProperty)
  | [] => pure accepted
  | p :: ps =>
      match inherited.find? fun q => q.field == p.field with
      | some q => do
          Noted.note (.inheritedProperty object p q)
          addProperties object inherited accepted ps
      | none =>
          match accepted.find? p.sharesAccessor with
          | some q => do
              Noted.note (.sharedAccessor object p q)
              addProperties object inherited accepted ps
          | none => addProperties object inherited (accepted ++ [p]) ps

/-- Object types that are flattened so far. -/
abbrev FlatTable := List (TypePath × Flattened)

/-- What an object type starts from: its parent's ancestors and the parent, and its properties. -/
def inheritedPart (done : FlatTable) : Option TypePath → Flattened
  | none => ⟨[], []⟩
  | some parent =>
      match done.lookup parent with
      | some f => ⟨f.ancestors ++ [parent], f.properties⟩
      | none => ⟨[parent], []⟩

/-- Flatten object types that stand in an order with parents first. -/
def flattenAll (b : Bindings) (done : FlatTable) : List TypePath → Check FlatTable
  | [] => pure done
  | path :: paths =>
      match b.get? path with
      | none => flattenAll b done paths
      | some object => do
          let base := inheritedPart done object.parent
          let properties ← addProperties path base.properties base.properties object.properties
          flattenAll b ((path, ⟨base.ancestors, properties⟩) :: done) paths

/-- The object types that are not on or below a cycle, parents first. -/
def flatOrder (b : Bindings) : List TypePath :=
  keepFirst (b.paths.flatMap fun path => (b.forest.lineage? path).getD [])

/-- Flatten every object type that can be flattened. -/
def flatten (b : Bindings) : Check FlatTable :=
  flattenAll b [] (flatOrder b)

end Resolve

end LevelSchema
