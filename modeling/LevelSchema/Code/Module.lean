/-!
# The generated object model

What is generated from one level, before it is written down: a **module** with the names it brings
in, its parameter types, one **record** for each object type, and the **aggregate** that holds a
collection for each object type.

All names are already the generated ones, escaped where they would be reserved words.  Descriptions
are carried along and take no part in anything else.
-/

namespace LevelSchema.Code

/-- Names that a module brings in from one place. -/
structure Use where
  source : String
  names : List String
deriving DecidableEq

/-! ## Parameter types -/

/-- A member of a generated enumeration or flag set. -/
structure Constant where
  name : String
  value : UInt32
  description : Option String
deriving DecidableEq

/-- A generated enumeration. -/
structure Enumeration where
  name : String
  description : Option String
  variants : List Constant
deriving DecidableEq

/-- A generated flag set, with the combination of all its flags. -/
structure FlagSet where
  name : String
  description : Option String
  constants : List Constant
  mask : UInt32
deriving DecidableEq

/-- A generated parameter type. -/
inductive ParameterItem
  | enumeration (item : Enumeration)
  | flagSet (item : FlagSet)
deriving DecidableEq

/-- The name of a generated parameter type. -/
def ParameterItem.name : ParameterItem → String
  | .enumeration e => e.name
  | .flagSet f => f.name

/-! ## Object types -/

/-- How a property is stored and handed out: a primitive value is borrowed, a parameter is copied,
and another object is kept in a box. -/
inductive Storage
  | value
  | parameter
  | relation
deriving DecidableEq

/-- A field of a record with its getter, which has the same name, and its setter. -/
structure Field where
  name : String
  setter : String
  storage : Storage
  type : String
  description : Option String
deriving DecidableEq

/-- A generated object type. -/
structure Record where
  name : String
  description : Option String
  specializes : Option String
  fields : List Field
deriving DecidableEq

/-! ## Aggregates -/

/-- A collection of an aggregate: stored in a field of the same name if it is the level's own, and
otherwise reached through the base. -/
structure Accessor where
  name : String
  element : String
  isOwn : Bool
deriving DecidableEq

/-- The generated aggregate of a level.  An inheriting level holds the aggregate of its parent as
its base. -/
structure Aggregate where
  level : String
  name : String
  base : Option String
  accessors : List Accessor
deriving DecidableEq

/-- The collections stored in the aggregate itself. -/
def Aggregate.fields (a : Aggregate) : List Accessor :=
  a.accessors.filter (·.isOwn)

/-! ## Modules -/

/-- Everything generated from one level. -/
structure Module where
  name : String
  description : Option String
  uses : List Use
  parameters : List ParameterItem
  records : List Record
  aggregate : Aggregate
deriving DecidableEq

end LevelSchema.Code
