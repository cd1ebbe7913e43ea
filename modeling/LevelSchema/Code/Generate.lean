import LevelSchema.Bits
import LevelSchema.Code.Module
import LevelSchema.Distinct
import LevelSchema.Name.Reserved
import LevelSchema.Resolved.Flatten

/-!
# From resolved level to generated module

Generating fails only on a model that resolution would not have produced: a level whose parent is
missing, a property whose type was never resolved, an enumeration without members, or flags that
overlap.  The first such fault, in the order of levels and within a level in this order, is
reported.  Types are looked at a second time when a record is generated, where one that was never
resolved would be a fault of its own.

**What is brought in.**  A module names the types of its properties and the elements of its
collections.  Those declared by another level are brought in from that level's module, primitives
from the configured place; each list of names is sorted, and so are the modules.
-/

namespace LevelSchema.Code

/-- A model that cannot be generated from. -/
inductive Fault
  | missingParent (level parent : String)
  | unresolvedType (object : TypePath) (property type : String)
  | emptyEnumeration (path : TypePath)
  | overlappingFlag (path : TypePath) (member : String) (value : UInt32)
  | unboundType (type : String)
deriving DecidableEq

/-- What is wrong with the model, in words. -/
def Fault.message : Fault → String
  | .missingParent level parent =>
      "level `" ++ level ++ "` extends `" ++ parent ++ "`, which was not resolved"
  | .unresolvedType object property type =>
      "property `" ++ Name.nested object.qualified property ++ "` has unresolved type `" ++ type ++
        "`"
  | .emptyEnumeration path => "enumeration `" ++ path.qualified ++ "` has no member"
  | .overlappingFlag path member value =>
      "flag `" ++ Name.nested path.qualified member ++ "` with value " ++ toString value.toNat ++
        " overlaps another member"
  | .unboundType type => "property type `" ++ type ++ "` reached the emitter unresolved"

/-! ## Names -/

/-- The module of a level. -/
def moduleName (level : String) : String :=
  Name.escape (Name.snake level)

/-! ## What is brought in -/

/-- The first property of a level whose type was never resolved. -/
def unresolved? (l : ResolvedLevel) : Option Fault :=
  l.objectTypes.findSome? fun o =>
    o.properties.findSome? fun p =>
      match p.type with
      | .unresolved name => some (.unresolvedType o.path p.name name)
      | _ => none

/-- The types of all properties of a level. -/
def propertyTypes (l : ResolvedLevel) : List TypeRef :=
  l.objectTypes.flatMap fun o => o.properties.map (·.type)

/-- The declared types a level's module names. -/
def mentionedPaths (l : ResolvedLevel) : List TypePath :=
  (propertyTypes l).filterMap (fun
    | .parameter path | .object path => some path
    | _ => none) ++ l.collections.map (·.object)

/-- The primitives a level's module names. -/
def mentionedPrimitives (l : ResolvedLevel) : List String :=
  (propertyTypes l).filterMap fun
    | .primitive name => some name
    | _ => none

/-- Names in increasing order. -/
def nameLess (a b : String) : Bool :=
  decide (a < b)

/-- Names with the module they come from, in increasing order of modules and then of names. -/
def importLess (a b : String × String) : Bool :=
  decide (a.1 < b.1) || (a.1 == b.1 && decide (a.2 < b.2))

/-- Put names that stand in a row and come from the same module together. -/
def groupByModule : List (String × String) → List (String × List String)
  | [] => []
  | (source, name) :: rest =>
      match groupByModule rest with
      | (other, names) :: groups =>
          if source == other then (source, name :: names) :: groups
          else (source, [name]) :: (other, names) :: groups
      | [] => [(source, [name])]

/-- The types that a level's module brings in from other modules. -/
def importedTypes (l : ResolvedLevel) : List (String × String) :=
  sortedSet importLess
    (((mentionedPaths l).filter fun path => path.level ≠ l.name).map fun path =>
      (moduleName path.level, Name.escape path.name))

/-- The primitives that a level's module brings in. -/
def importedPrimitives (l : ResolvedLevel) : List String :=
  sortedSet nameLess ((mentionedPrimitives l).map Name.escape)

/-- Everything that a level's module brings in. -/
def broughtIn (primitivesPath : String) (l : ResolvedLevel) : List Use :=
  (groupByModule (importedTypes l)).map (fun (source, names) => ⟨"super::" ++ source, names⟩) ++
    if (importedPrimitives l).isEmpty then [] else [⟨primitivesPath, importedPrimitives l⟩]

/-! ## Parameter types -/

/-- The combination of flags that have to be disjoint single bits. -/
def flagMask (path : TypePath) (mask : UInt32) : List Member → Except Fault UInt32
  | [] => .ok mask
  | m :: ms =>
      if isSingleBit m.value.toNat && (mask &&& m.value) == 0 then
        flagMask path (mask ||| m.value) ms
      else
        .error (.overlappingFlag path m.name.value m.value)

/-- Generate a parameter type of a level. -/
def ParameterItem.ofType (level : String) (p : ParameterType) : Except Fault ParameterItem :=
  let path : TypePath := ⟨level, p.name.value⟩
  let constants (spell : String → String) : List Constant :=
    p.members.map fun m => ⟨spell m.name.value, m.value, m.description⟩
  match p.kind with
  | .enumeration =>
      if p.members.isEmpty then .error (.emptyEnumeration path)
      else .ok (.enumeration ⟨Name.escape p.name.value, p.description, constants Name.escape⟩)
  | .flagSet => do
      let mask ← flagMask path 0 p.members
      return .flagSet ⟨Name.escape p.name.value, p.description, constants Name.screaming, mask⟩

/-! ## Object types -/

/-- How a property of the given type is stored. -/
def Storage.ofType : TypeRef → Except Fault Storage
  | .primitive _ => .ok .value
  | .parameter _ => .ok .parameter
  | .object _ => .ok .relation
  | .unresolved name => .error (.unboundType name)

/-- Generate the field of a property. -/
def Field.ofProperty (p : ResolvedProperty) : Except Fault Field := do
  let storage ← Storage.ofType p.type
  return ⟨Name.escape p.field, p.setter, storage, Name.escape p.type.name, p.description⟩

/-- Generate an object type. -/
def Record.ofObject (o : ResolvedObject) : Except Fault Record := do
  let fields ← o.properties.mapM Field.ofProperty
  return ⟨Name.escape o.path.name, o.description, o.parent?.map (·.qualified), fields⟩

/-! ## Aggregates and modules -/

/-- Generate the aggregate of a level. -/
def Aggregate.ofLevel (l : ResolvedLevel) : Aggregate where
  level := l.name
  name := Name.escape l.name
  base := l.parent?.map fun parent => "super::" ++ moduleName parent ++ "::" ++ Name.escape parent
  accessors := l.collections.map fun c =>
    ⟨c.accessor, Name.escape c.object.name, c.declaredIn == l.name⟩

/-- The parent of a level if the schema does not have it. -/
def missingParent? (s : ResolvedSchema) (l : ResolvedLevel) : Option Fault :=
  match l.parent? with
  | some parent =>
      if (s.level? parent).isSome then none else some (.missingParent l.name parent)
  | none => none

/-- Generate the module of a level. -/
def Module.ofLevel (primitivesPath : String) (s : ResolvedSchema) (l : ResolvedLevel) :
    Except Fault Module :=
  match missingParent? s l <|> unresolved? l with
  | some fault => .error fault
  | none => do
      let parameters ← l.parameterTypes.mapM (ParameterItem.ofType l.name)
      let records ← l.objectTypes.mapM Record.ofObject
      return ⟨moduleName l.name, l.description, broughtIn primitivesPath l, parameters, records,
        .ofLevel l⟩

end LevelSchema.Code
