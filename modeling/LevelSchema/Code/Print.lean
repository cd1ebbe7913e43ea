import LevelSchema.Code.Line
import LevelSchema.Code.Module

/-!
# Writing generated modules

Each part of a module has one way of being written.  Enumerations become enumerations with fixed
numbers, flag sets a wrapped 32-bit word with a constant for each flag; records keep every property
as an optional field behind a getter and a setter; aggregates own their collections and hand them
out, those of the base through the base.
-/

namespace LevelSchema.Code

/-! ## Bringing in -/

/-- A list of names behind a path. -/
def useList : List String → String
  | [name] => name
  | names => "\x7b" ++ ", ".intercalate names ++ "\x7d"

/-- Bring names in. -/
def Use.line (u : Use) : Line :=
  code ("use " ++ u.source ++ "::" ++ useList u.names ++ ";")

/-! ## Parameter types -/

/-- What every parameter type derives. -/
def parameterDerives : Line :=
  code "#[derive(Debug, Clone, Copy, PartialEq, Eq, Hash, Default)]"

/-- The variants of an enumeration.  The first one is the default. -/
def variantLines : List Constant → List Line
  | [] => []
  | first :: others =>
      let variant (c : Constant) := code (c.name ++ " = " ++ toString c.value.toNat ++ ",")
      docs first.description ++ [code "#[default]", variant first] ++
        others.flatMap fun c => docs c.description ++ [variant c]

/-- Write an enumeration. -/
def Enumeration.lines (e : Enumeration) : List Line :=
  docs e.description ++ [parameterDerives, code "#[repr(u32)]"] ++
    block ("pub enum " ++ e.name) (variantLines e.variants) ++
    [.blank] ++
    block ("impl " ++ e.name)
      ([doc "Every member, in declaration order.",
        code ("pub const ALL: [Self; " ++ toString e.variants.length ++ "] = [" ++
          ", ".intercalate (e.variants.map fun c => "Self::" ++ c.name) ++ "];"),
        .blank] ++
        block "pub const fn value(self) -> u32" [code "self as u32"])

/-- Write a flag set. -/
def FlagSet.lines (f : FlagSet) : List Line :=
  docs f.description ++
    [parameterDerives, code ("pub struct " ++ f.name ++ "(u32);"), .blank] ++
    block ("impl " ++ f.name)
      (f.constants.flatMap (fun c => docs c.description ++
          [code ("pub const " ++ c.name ++ ": Self = Self(" ++ toString c.value.toNat ++ ");")]) ++
        .blank ::
        separated
          [block "pub const fn empty() -> Self" [code "Self(0)"],
           block "pub const fn all() -> Self" [code ("Self(" ++ toString f.mask.toNat ++ ")")],
           block "pub const fn bits(self) -> u32" [code "self.0"],
           block "pub const fn contains(self, other: Self) -> bool"
             [code "self.0 & other.0 == other.0"],
           block "pub const fn is_empty(self) -> bool" [code "self.0 == 0"]]) ++
    [.blank] ++
    block ("impl std::ops::BitOr for " ++ f.name)
      ([code "type Output = Self;", .blank] ++
        block "fn bitor(self, rhs: Self) -> Self" [code "Self(self.0 | rhs.0)"]) ++
    [.blank] ++
    block ("impl std::ops::BitOrAssign for " ++ f.name)
      (block "fn bitor_assign(&mut self, rhs: Self)" [code "self.0 |= rhs.0;"])

/-- Write a parameter type. -/
def ParameterItem.lines : ParameterItem → List Line
  | .enumeration e => e.lines
  | .flagSet f => f.lines

/-! ## Object types -/

/-- The derives that are configured, if they come to anything. -/
def deriveLines (derives : List String) : List Line :=
  if (", ".intercalate derives).isEmpty then []
  else [code ("#[derive(" ++ ", ".intercalate derives ++ ")]")]

namespace Field

/-- The type of the field. -/
def storedType (f : Field) : String :=
  match f.storage with
  | .value | .parameter => "Option<" ++ f.type ++ ">"
  | .relation => "Option<Box<" ++ f.type ++ ">>"

/-- What the getter hands out. -/
def handedType (f : Field) : String :=
  match f.storage with
  | .value | .relation => "Option<&" ++ f.type ++ ">"
  | .parameter => "Option<" ++ f.type ++ ">"

/-- How the getter gets at it. -/
def getExpr (f : Field) : String :=
  match f.storage with
  | .value => "self." ++ f.name ++ ".as_ref()"
  | .parameter => "self." ++ f.name
  | .relation => "self." ++ f.name ++ ".as_deref()"

/-- How the setter turns its argument into what is stored. -/
def setExpr (f : Field) : String :=
  match f.storage with
  | .value | .parameter => "value"
  | .relation => "value.map(Box::new)"

/-- Write the getter and the setter. -/
def accessorLines (f : Field) : List Line :=
  docs f.description ++
    block ("pub fn " ++ f.name ++ "(&self) -> " ++ f.handedType) [code f.getExpr] ++
    [.blank] ++
    block ("pub fn " ++ f.setter ++ "(&mut self, value: Option<" ++ f.type ++ ">)")
      [code ("self." ++ f.name ++ " = " ++ f.setExpr ++ ";")]

end Field

namespace Record

/-- The documentation of a record: its description, and what it specializes. -/
def docLines (r : Record) : List Line :=
  docs r.description ++
    match r.specializes with
    | none => []
    | some parent =>
        (if r.description.isSome then [doc ""] else []) ++
          [doc ("Specializes `" ++ parent ++ "`.")]

/-- Write a record. -/
def lines (derives : List String) (r : Record) : List Line :=
  r.docLines ++ deriveLines derives ++
    blockOrEmpty ("pub struct " ++ r.name)
      (r.fields.map fun f => code (f.name ++ ": " ++ f.storedType ++ ",")) ++
    [.blank] ++
    block ("impl " ++ r.name)
      (separated
        (block "pub fn new() -> Self"
          (blockOrEmpty "Self" (r.fields.map fun f => code (f.name ++ ": None,"))) ::
        r.fields.map Field.accessorLines))

end Record

/-! ## Aggregates -/

namespace Accessor

/-- How an aggregate gets at a collection. -/
def getExpr (a : Accessor) : String :=
  if a.isOwn then "&self." ++ a.name else "self.base." ++ a.name ++ "()"

/-- How an aggregate gets at a collection in order to change it. -/
def getMutExpr (a : Accessor) : String :=
  if a.isOwn then "&mut self." ++ a.name else "self.base." ++ a.name ++ "_mut()"

/-- Write the two functions that hand out a collection. -/
def lines (a : Accessor) : List (List Line) :=
  [block ("pub fn " ++ a.name ++ "(&self) -> &[" ++ a.element ++ "]") [code a.getExpr],
   block ("pub fn " ++ a.name ++ "_mut(&mut self) -> &mut Vec<" ++ a.element ++ ">")
     [code a.getMutExpr]]

end Accessor

namespace Aggregate

/-- The functions that hand out the base, if there is one. -/
def baseLines (a : Aggregate) : List (List Line) :=
  match a.base with
  | none => []
  | some base =>
      [block ("pub fn base(&self) -> &" ++ base) [code "&self.base"],
       block ("pub fn base_mut(&mut self) -> &mut " ++ base) [code "&mut self.base"]]

/-- Write an aggregate. -/
def lines (derives : List String) (a : Aggregate) : List Line :=
  [doc ("Object model of the `" ++ a.level ++ "` abstraction level."), doc "",
   doc "Collections are created with the aggregate and never replaced; only",
   doc "their contents change."] ++
    deriveLines derives ++
    block ("pub struct " ++ a.name)
      (a.base.toList.map (fun base => code ("base: " ++ base ++ ",")) ++
        a.fields.map fun f => code (f.name ++ ": Vec<" ++ f.element ++ ">,")) ++
    [.blank] ++
    block ("impl " ++ a.name)
      (separated
        (block "pub fn new() -> Self"
          (block "Self"
            (a.base.toList.map (fun base => code ("base: " ++ base ++ "::new(),")) ++
              a.fields.map fun f => code (f.name ++ ": Vec::new(),"))) ::
        a.baseLines ++ a.accessors.flatMap Accessor.lines))

end Aggregate

/-! ## Modules -/

namespace Module

/-- Write the contents of a module. -/
def lines (derives : List String) (m : Module) : List Line :=
  separated
    ((if m.uses.isEmpty then [] else [m.uses.map Use.line]) ++
      m.parameters.map ParameterItem.lines ++
      m.records.map (Record.lines derives) ++
      [m.aggregate.lines derives])

end Module

end LevelSchema.Code
