import LevelSchema.Diagnostic.Noted
import LevelSchema.Primitives
import LevelSchema.Resolved.Finding

/-!
# Scopes

The scope of a level holds the types that can be named from it: those its ancestors see, and its
own.  Scopes are built level by level, ancestors first, each on top of the scope of the parent.

Names must not hide one another.  A type must not be called like a primitive, like a type the level
inherits, or like a level from which it can be seen, because the aggregate of a level takes the name
of the level.  The types that hide a primitive or an inherited type are remembered as
**redeclared**, so that no further report is made about their collections.
-/

namespace LevelSchema

/-- The types that can be named from a level, by name.  The entry in front counts. -/
abbrev Scope := List (String × Visible)

namespace Level

/-- The types a level declares, parameter types first. -/
def ownTypes (l : Level) : List (Located String × TypeKind) :=
  l.parameterTypes.map (fun p => (p.name, .parameter)) ++
    l.objectTypes.map fun o => (o.name, .object)

end Level

namespace Resolve

/-- Resolving: a result and what was found. -/
abbrev Check := Noted ResolveFinding

/-- Put the types of a level on top of a scope.  Also gives those that are redeclared. -/
def declareTypes (primitives : PrimitiveSet) (level : String) (scope : Scope) :
    List (Located String × TypeKind) → Check (Scope × List TypePath)
  | [] => pure (scope, [])
  | (name, kind) :: rest => do
      let path : TypePath := ⟨level, name.value⟩
      let shadows := primitives.contains name.value
      let inherited := scope.lookup name.value
      Noted.noteAny (if shadows then some (.typeShadowsPrimitive path name.span) else none)
      Noted.noteAny (inherited.map (.redeclaredType path name.span ·))
      let (last, redeclared) ←
        declareTypes primitives level ((name.value, ⟨path, kind, name.span⟩) :: scope) rest
      return (last, if shadows || inherited.isSome then path :: redeclared else redeclared)

/-- The scope of a level on top of the scope of its parent. -/
def levelScope (primitives : PrimitiveSet) (parent : Scope) (l : Level) :
    Check (Scope × List TypePath) := do
  Noted.noteAny
    (if primitives.contains l.name.value then some (.levelShadowsPrimitive l.name) else none)
  let (scope, redeclared) ← declareTypes primitives l.name.value parent l.ownTypes
  Noted.noteAny ((scope.lookup l.name.value).map (.typeNamedLikeLevel l.name ·))
  return (scope, redeclared)

/-- The scopes of all levels, and the types that are redeclared anywhere. -/
structure Scopes where
  byLevel : List (String × Scope)
  redeclared : List TypePath

/-- The scope of a level among those built so far; empty if there is none. -/
def Scopes.of (s : Scopes) (level : String) : Scope :=
  (s.byLevel.lookup level).getD []

/-- The scope that a level builds upon. -/
def Scopes.ofParent (s : Scopes) (l : Level) : Scope :=
  match l.parent with
  | some parent => s.of parent.value
  | none => []

/-- Build the scopes of levels that stand in an order with parents first. -/
def scopes (primitives : PrimitiveSet) (done : Scopes) : List Level → Check Scopes
  | [] => pure done
  | l :: ls => do
      let (scope, redeclared) ← levelScope primitives (done.ofParent l) l
      scopes primitives
        ⟨(l.name.value, scope) :: done.byLevel, done.redeclared ++ redeclared⟩ ls

end Resolve

end LevelSchema
