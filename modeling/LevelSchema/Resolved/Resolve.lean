import LevelSchema.Resolved.Flatten

/-!
# From schema to resolved schema

Resolution goes through a schema in stages and notes everything it finds.

1. Every level that is extended has to be declared, and no level may extend itself, directly or
   through others.  If this fails nothing further is looked at.
2. Levels are put in order, each after the one it extends, and their scopes are built.
3. The names that object types use are bound, and cycles among object types are reported.
4. Object types are flattened.
5. Each level gets its collections: those of its parent and one for each object type of its own.

The order of levels keeps the order of declaration except that a level pulls its ancestors in front
of itself.  Where a hand-made schema declares a level name twice, the last declaration counts.
-/

namespace LevelSchema

namespace Schema

/-- The level with the given name; of several the last. -/
def level? (s : Schema) (name : String) : Option Level :=
  s.levels.reverse.find? fun l => l.name.value == name

/-- The name of the level that the one called `name` extends. -/
def parentName? (s : Schema) (name : String) : Option String :=
  s.level? name >>= fun l => l.parent.map (·.value)

/-- The names of the levels. -/
def levelNames (s : Schema) : List String :=
  s.levels.map (·.name.value)

/-- Which level extends which. -/
def forest (s : Schema) : Forest String :=
  .ofParent s.levelNames s.parentName?

/-- The levels that a level inherits from, root first. -/
def ancestors (s : Schema) (l : Level) : List String :=
  match l.parent with
  | some parent => (s.forest.lineage? parent.value).getD []
  | none => []

/-- The names of the levels, each after those it inherits from. -/
def orderedNames (s : Schema) : List String :=
  keepFirst (s.levels.flatMap fun l => s.ancestors l ++ [l.name.value])

/-- The levels, each after those it inherits from. -/
def orderedLevels (s : Schema) : List Level :=
  s.orderedNames.filterMap s.level?

end Schema

namespace Resolve

/-! ## Levels -/

/-- The levels that extend something that is not a level. -/
def undeclaredParents (s : Schema) : List ResolveFinding :=
  s.levels.filterMap fun l =>
    match l.parent with
    | some parent =>
        if (s.level? parent.value).isSome then none else some (.undeclaredLevel l.name.value parent)
    | none => none

/-- The cycles of levels. -/
def levelCycles (s : Schema) : List ResolveFinding :=
  (s.forest.cycles s.levelNames).map fun cycle =>
    .levelCycle (cycle.filterMap fun name =>
      s.level? name >>= fun l => l.parent.map fun parent => ⟨name, parent⟩)

/-- The cycles of object types. -/
def objectCycles (b : Bindings) : List ResolveFinding :=
  (b.forest.cycles b.paths).map fun cycle =>
    .objectCycle (cycle.filterMap fun path =>
      b.get? path >>= fun o => o.decl.parent.map fun parent => ⟨path.qualified, parent⟩)

/-! ## Collections -/

/-- Add the collections of a level's own object types.  An accessor that is already taken is
reported, unless the object type has been reported as redeclared. -/
def addCollections (level : String) (redeclared : List TypePath) (accepted : List Collection) :
    List ObjectType → Check (List Collection)
  | [] => pure accepted
  | o :: os =>
      let collection : Collection := ⟨⟨level, o.name.value⟩⟩
      match accepted.find? fun c => c.accessor == collection.accessor with
      | some existing => do
          Noted.noteAny
            (if redeclared.contains collection.object then none
             else some (.sharedCollection level collection o.name.span existing))
          addCollections level redeclared accepted os
      | none => addCollections level redeclared (accepted ++ [collection]) os

/-- The collections of the levels treated so far. -/
abbrev CollectionTable := List (String × List Collection)

/-- The collections that a level starts from. -/
def inheritedCollections (done : CollectionTable) (l : Level) : List Collection :=
  match l.parent with
  | some parent => (done.lookup parent.value).getD []
  | none => []

/-! ## Putting a level together -/

/-- The object types of a level that could be flattened. -/
def resolvedObjects (flat : FlatTable) (l : Level) : List ResolvedObject :=
  l.objectTypes.filterMap fun o =>
    let path : TypePath := ⟨l.name.value, o.name.value⟩
    (flat.lookup path).map fun f => ⟨path, o.description, o.span, f.ancestors, f.properties⟩

/-- Resolve levels that stand in an order with parents first. -/
def resolvedLevels (s : Schema) (redeclared : List TypePath) (flat : FlatTable)
    (done : CollectionTable) : List Level → Check (List ResolvedLevel)
  | [] => pure []
  | l :: ls => do
      let collections ←
        addCollections l.name.value redeclared (inheritedCollections done l) l.objectTypes
      let level : ResolvedLevel :=
        ⟨l.name.value, l.description, l.span, s.ancestors l, l.parameterTypes,
          resolvedObjects flat l, collections⟩
      let rest ← resolvedLevels s redeclared flat ((l.name.value, collections) :: done) ls
      return level :: rest

/-- Everything that follows once the levels are known to form no cycle. -/
def body (primitives : PrimitiveSet) (s : Schema) : Check ResolvedSchema := do
  let order := s.orderedLevels
  let scopes ← scopes primitives ⟨[], []⟩ order
  let bindings ← bindings s primitives scopes order
  let _ ← (⟨(), objectCycles bindings⟩ : Check Unit)
  let flat ← flatten bindings
  let levels ← resolvedLevels s scopes.redeclared flat [] order
  return ⟨levels⟩

end Resolve

namespace Schema

/-- Resolve a schema, or say everything that stands in the way. -/
def resolution (s : Schema) (primitives : PrimitiveSet) :
    Except (List ResolveFinding) ResolvedSchema :=
  let early := Resolve.undeclaredParents s ++ Resolve.levelCycles s
  if early.isEmpty then
    let late := Resolve.body primitives s
    if late.notes.isEmpty then .ok late.value else .error late.notes
  else
    .error early

/-- Resolve a schema, or reject it. -/
def resolve (s : Schema) (primitives : PrimitiveSet) : Except Rejection ResolvedSchema :=
  match s.resolution primitives with
  | .ok r => .ok r
  | .error fs => .error ⟨fs.map ResolveFinding.diagnostic⟩

end Schema

end LevelSchema
