import LevelSchema.Diagnostic.Basic
import LevelSchema.Resolved.Basic

/-!
# What can be wrong between declarations

The findings of resolving inheritance and references, each with what it is about, and the wording
under which it is reported.  All of them are errors.
-/

namespace LevelSchema

/-- The two kinds of declared types. -/
inductive TypeKind
  | parameter
  | object
deriving DecidableEq

/-- A type that can be named from some level: where it is declared, and what it is. -/
structure Visible where
  path : TypePath
  kind : TypeKind
  span : Span
deriving DecidableEq

/-- One step of an inheritance cycle: a node, and the place where it names what it extends. -/
structure CycleStep where
  name : String
  parent : Located String
deriving DecidableEq

/-- Something noticed about how declarations fit together. -/
inductive ResolveFinding
  | undeclaredLevel (level : String) (parent : Located String)
  | levelCycle (steps : List CycleStep)
  | levelShadowsPrimitive (level : Located String)
  | typeShadowsPrimitive (path : TypePath) (span : Span)
  | redeclaredType (path : TypePath) (span : Span) (inherited : Visible)
  | typeNamedLikeLevel (level : Located String) (type : Visible)
  | extendsParameterType (object : TypePath) (parent : Located String) (type : Visible)
  | extendsUnknownType (object : TypePath) (parent : Located String) (elsewhere : Option String)
  | unknownPropertyType (object : TypePath) (property : String) (type : Located String)
      (elsewhere : Option String)
  | objectCycle (steps : List CycleStep)
  | inheritedProperty (object : TypePath) (property inherited : ResolvedProperty)
  | sharedAccessor (object : TypePath) (property other : ResolvedProperty)
  | sharedCollection (level : String) (collection : Collection) (span : Span)
      (existing : Collection)
deriving DecidableEq

namespace ResolveFinding

/-- A name in quotes. -/
def quoted (name : String) : String :=
  "`" ++ name ++ "`"

/-- The nodes of a cycle in a row, back to the first. -/
def cycleText (steps : List CycleStep) : String :=
  " → ".intercalate ((steps ++ steps.take 1).map fun s => quoted s.name)

/-- Label every step of a cycle, the first as the place of the mistake. -/
def labelSteps (d : Diagnostic) : List CycleStep → Diagnostic
  | [] => d
  | first :: others =>
      let remark (s : CycleStep) := quoted s.name ++ " extends " ++ quoted s.parent.value
      others.foldl (fun d s => d.secondary s.parent.span (remark s))
        (d.primary first.parent.span (remark first))

/-- How to make `name` known in `level`, if it is not declared in a level that is not extended. -/
def visibilityHint (name level : String) : Option String → String
  | some other =>
      quoted (Name.nested other name) ++ " is declared in level " ++ quoted other ++ ", which " ++
        quoted level ++ " does not extend"
  | none =>
      "declare " ++ quoted name ++ " in " ++ quoted level ++
        " or an ancestor level, or configure it as an extra primitive"

/-- How a finding is reported. -/
def diagnostic : ResolveFinding → Diagnostic
  | .undeclaredLevel level parent =>
      (Diagnostic.error ("abstraction level " ++ quoted level ++ " extends undeclared level " ++
          quoted parent.value)).withCode .undeclaredExtendsTarget
        |>.primary parent.span "no abstraction level with this name"
  | .levelCycle steps =>
      labelSteps ((Diagnostic.error ("abstraction level inheritance cycle: " ++ cycleText steps))
        |>.withCode .inheritanceCycle
        |>.hint "an abstraction level cannot be its own ancestor; remove one `extends`") steps
  | .levelShadowsPrimitive level =>
      (Diagnostic.error ("abstraction level " ++ quoted level.value ++
          " has the same name as the primitive " ++ quoted level.value)).withCode .nameCollision
        |>.primary level.span "shadows a primitive"
        |>.hint (quoted level.value ++ " is the generated aggregate of the level and would hide " ++
          "the primitive; rename the level")
  | .typeShadowsPrimitive path span =>
      (Diagnostic.error ("type " ++ quoted path.qualified ++
          " has the same name as the primitive " ++ quoted path.name)).withCode .nameCollision
        |>.primary span "shadows a primitive"
        |>.hint "rename the type; primitives are visible from every level"
  | .redeclaredType path span inherited =>
      (Diagnostic.error ("type " ++ quoted path.qualified ++ " redeclares " ++
          quoted inherited.path.qualified ++ ", which is inherited from level " ++
          quoted inherited.path.level)).withCode .nameCollision
        |>.primary span "redeclared here"
        |>.secondary inherited.span "inherited declaration"
        |>.hint "types of ancestor levels are visible here; rename this one"
  | .typeNamedLikeLevel level type =>
      let clash :=
        (Diagnostic.error ("type " ++ quoted type.path.qualified ++
            " has the same name as abstraction level " ++ quoted level.value))
          |>.withCode .nameCollision
          |>.hint (quoted level.value ++
            " is the generated aggregate of the level; rename the type")
      if type.path.level == level.value then
        clash.primary type.span "collides with the level aggregate"
      else
        clash.primary level.span "level declared here" |>.secondary type.span "inherited type"
  | .extendsParameterType object parent type =>
      (Diagnostic.error ("object type " ++ quoted object.qualified ++ " extends " ++
          quoted type.path.qualified ++ ", which is a parameter type")).withCode .typeKindMismatch
        |>.primary parent.span "not an object type"
        |>.secondary type.span "declared as a parameter type here"
        |>.hint "an object type can only specialize another object type"
  | .extendsUnknownType object parent elsewhere =>
      (Diagnostic.error ("object type " ++ quoted object.qualified ++ " extends " ++
          quoted parent.value ++ ", which is not visible from level " ++ quoted object.level))
        |>.withCode .unknownTypeReference
        |>.primary parent.span "unknown object type"
        |>.hint (visibilityHint parent.value object.level elsewhere)
  | .unknownPropertyType object property type elsewhere =>
      (Diagnostic.error ("unknown type " ++ quoted type.value ++ " for property " ++
          quoted (Name.nested object.qualified property))).withCode .unknownTypeReference
        |>.primary type.span ("not visible from " ++ quoted object.level)
        |>.hint (visibilityHint type.value object.level elsewhere)
  | .objectCycle steps =>
      labelSteps ((Diagnostic.error ("object type inheritance cycle: " ++ cycleText steps))
        |>.withCode .inheritanceCycle
        |>.hint "an object type cannot specialize itself; remove one `extends`") steps
  | .inheritedProperty object property inherited =>
      let own := quoted (Name.nested object.qualified property.name)
      let clash :=
        if inherited.name == property.name then
          (Diagnostic.error ("property " ++ own ++ " redeclares the inherited property " ++
              quoted inherited.qualified))
            |>.hint "specialization adds properties; rename or remove this one"
        else
          (Diagnostic.error ("property " ++ own ++ " clashes with the inherited property " ++
              quoted inherited.qualified))
            |>.hint ("both names produce the generated field " ++
              quoted (Name.snake property.name))
      clash.withCode .nameCollision
        |>.primary property.span "redeclared here"
        |>.secondary inherited.span ("inherited from " ++ quoted inherited.declaredIn.qualified)
  | .sharedAccessor object property other =>
      (Diagnostic.error ("property " ++ quoted (Name.nested object.qualified property.name) ++
          " clashes with the accessors of property " ++ quoted other.qualified))
        |>.withCode .nameCollision
        |>.primary property.span "accessor generated twice"
        |>.secondary other.span
          (if other.declaredIn == object then "declared here"
           else "inherited from " ++ quoted other.declaredIn.qualified)
        |>.hint ("a getter of one property would have the name of the other's setter; " ++
          "rename one of them")
  | .sharedCollection level collection span existing =>
      (Diagnostic.error ("collection " ++ quoted collection.name ++ " of " ++ quoted level ++
          " clashes with " ++ quoted existing.name ++ " of " ++ quoted existing.declaredIn))
        |>.withCode .nameCollision
        |>.primary span "declared here"
        |>.hint ("both produce the accessor " ++ quoted collection.accessor)

end ResolveFinding

end LevelSchema
