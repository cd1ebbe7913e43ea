import LevelSchema.Distinct

/-!
# Primitive types

Geometry and value types come from a library outside the generated model, and schemas refer to
them by name only.  A primitive set is the built-in names followed by the extra ones a
configuration adds, each name once, at the place where it first appears.
-/

namespace LevelSchema

/-- The names that every schema can use without declaring them. -/
def builtinPrimitives : List String :=
  ["Point", "Curve", "ClosedCurve", "Surface", "Solid", "Number", "Integer", "Text"]

/-- The primitive names visible from every level, without repetition. -/
structure PrimitiveSet where
  names : List String
deriving DecidableEq

namespace PrimitiveSet

/-- The built-in primitives. -/
def builtin : PrimitiveSet :=
  ⟨builtinPrimitives⟩

/-- The built-in primitives and then `extra`. -/
def withExtra (extra : List String) : PrimitiveSet :=
  ⟨keepFirst (builtinPrimitives ++ extra)⟩

/-- Whether `name` is a primitive. -/
def contains (p : PrimitiveSet) (name : String) : Bool :=
  p.names.contains name

end PrimitiveSet

end LevelSchema
