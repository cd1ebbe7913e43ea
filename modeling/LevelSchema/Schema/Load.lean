import LevelSchema.Bits
import LevelSchema.Diagnostic.Noted
import LevelSchema.Document.Grammar
import LevelSchema.Name.Reserved
import LevelSchema.Schema.Finding
import LevelSchema.Text.Blank
import LevelSchema.Token.Scan

/-!
# From document to schema

Loading checks what can be checked without resolving types: that names can be used and are not
declared twice, that nothing is left empty, that members have good values, and that whatever is
extended is declared somewhere.  Every finding is noted; the schema is built regardless, and refused
at the end if there was an error.

**Keys.**  Two names clash when they give the same generated name.  Levels become modules and
properties become fields, so both are compared in snake case; flags become constants, compared in
screaming snake case; types and enumeration members keep the names they have.

**Values.**  A member of an enumeration without a value is one more than the member before it, and
the first one is zero.  A flag has to spell out a power of two.  Values fit in 32 bits.  A member
without an acceptable value of its own is left out, and does not count for the members after it.
-/

namespace LevelSchema

namespace Load

/-- Checking a declaration: a result and what was found. -/
abbrev Check := Noted LoadFinding

/-! ## Names -/

/-- Type and level names that would hide what generated code relies on. -/
def reservedTypeNames : List String :=
  ["Option", "Vec", "Box", "Some", "None"]

/-- Why a name cannot be used in its role, if it cannot. -/
def reservedReason? (role : NameRole) (name : String) : Option ReservedReason :=
  if Name.isUnescapable name || Name.isUnescapable (Name.snake name) then
    some .notAnIdentifier
  else
    match role with
    | .level | .type =>
        if reservedTypeNames.contains name then some .shadowsStandardName else none
    | .property => if Name.snake name == "new" then some .constructorTaken else none
    | .member .enumeration => if name == "ALL" then some .listingTaken else none
    | .member .flagSet => none

/-- The generated name by which two names of the same role clash. -/
def key (role : NameRole) (name : String) : String :=
  match role with
  | .level | .property => Name.snake name
  | .member .flagSet => Name.screaming name
  | .type | .member .enumeration => name

/-- The names of a scope so far, each under its key. -/
abbrev Seen := List (String × Located String)

/-- Check a declared name: whether it can be used, and whether its key is new in the scope. -/
def checkName (role : NameRole) (seen : Seen) (name : Located String) (owner : String) :
    Check Seen := do
  Noted.noteAny ((reservedReason? role name.value).map (.reservedName role name owner ·))
  match seen.lookup (key role name.value) with
  | some first =>
      Noted.note (.repeatedName role name owner (key role name.value) first)
      return seen
  | none => return (key role name.value, name) :: seen

/-- The text of a description; a blank one is dropped. -/
def describe (owner : String) : Option Description → Check (Option String)
  | none => pure none
  | some d =>
      if Text.isBlankText d.value then do
        Noted.note (.emptyDescription owner d.span)
        return none
      else
        return some d.value

/-! ## Members -/

/-- One more, or the same if there is no greater number. -/
def successor (n : UInt64) : UInt64 :=
  if n.toNat + 1 < UInt64.size then n + 1 else n

/-- A number as a 32-bit word, if it is one. -/
def toWord? (n : UInt64) : Option UInt32 :=
  if n.toNat < UInt32.size then some n.toUInt32 else none

/-- Where the value of a member stands: at the value if it is written, otherwise at the name. -/
def valueSpan (m : MemberDecl) : Span :=
  match m.value with
  | some v => v.span
  | none => m.name.span

/-- The value of a member, where `next` is the one it would have without writing it. -/
def memberValue (kind : ParameterKind) (owner : String) (m : MemberDecl) (next : UInt64) :
    Check (Option UInt64) := do
  let candidate : Check (Option UInt64) :=
    match kind, m.value with
    | .enumeration, none => pure (some next)
    | .enumeration, some v => pure (some v.value)
    | .flagSet, none => do
        Noted.note (.missingFlagValue owner m.name)
        return none
    | .flagSet, some v =>
        if isSingleBit v.value.toNat then pure (some v.value)
        else do
          Noted.note (.notSingleBit owner v.value (valueSpan m))
          return none
  match ← candidate with
  | none => return none
  | some value =>
      if value.toNat < UInt32.size then return some value
      else
        Noted.note (.valueOutOfRange kind owner value (valueSpan m))
        return none

/-- What is remembered from one member to the next. -/
structure MemberScope where
  seen : Seen
  values : List (UInt64 × Located String)
  next : UInt64

/-- The members of a parameter type. -/
def members (kind : ParameterKind) (parameter : String) (scope : MemberScope) :
    List MemberDecl → Check (List Member)
  | [] => pure []
  | m :: ms => do
      let owner := Name.nested parameter m.name.value
      let seen ← checkName (.member kind) scope.seen m.name owner
      match ← memberValue kind owner m scope.next with
      | none => members kind parameter { scope with seen } ms
      | some value =>
          let next := successor value
          match scope.values.lookup value with
          | some first =>
              Noted.note (.repeatedValue kind owner value (valueSpan m) parameter first)
              members kind parameter { scope with seen, next } ms
          | none =>
              let values := (value, m.name) :: scope.values
              match toWord? value with
              | none => members kind parameter ⟨seen, values, next⟩ ms
              | some word =>
                  let description ← describe owner m.description
                  let rest ← members kind parameter ⟨seen, values, next⟩ ms
                  return ⟨m.name, word, description⟩ :: rest

/-- A parameter type under its qualified name. -/
def parameterType (owner : String) (d : ParameterDecl) : Check ParameterType := do
  let kind := if d.multiple then .flagSet else .enumeration
  if d.members.isEmpty then
    Noted.note (.noMember owner d.name.span)
  let members ← members kind owner ⟨[], [], 0⟩ d.members
  let description ← describe owner d.description
  return ⟨d.name, kind, description, members, d.span⟩

/-! ## Objects -/

/-- The properties of an object type. -/
def properties (object : String) (seen : Seen) : List PropertyDecl → Check (List Property)
  | [] => pure []
  | p :: ps => do
      let owner := Name.nested object p.name.value
      let seen ← checkName .property seen p.name owner
      let description ← describe owner p.description
      let rest ← properties object seen ps
      return ⟨p.name, p.typeName.map .unresolved, description⟩ :: rest

/-- An object type under its qualified name, in a schema that declares the types `typeNames`. -/
def objectType (typeNames : List String) (owner : String) (d : ObjectDecl) : Check ObjectType := do
  if let some parent := d.parent then
    if !typeNames.contains parent.value then
      Noted.note (.undeclaredType owner parent)
  let properties ← properties owner [] d.properties
  let description ← describe owner d.description
  return ⟨d.name, description, d.parent, properties, d.span⟩

/-! ## Levels -/

/-- The parameter and object types of a level, each in the order of declaration. -/
def items (typeNames : List String) (level : String) (seen : Seen) :
    List LevelItem → Check (List ParameterType × List ObjectType)
  | [] => pure ([], [])
  | item :: rest => do
      let owner := Name.nested level item.name.value
      let seen ← checkName .type seen item.name owner
      match item with
      | .parameter d => do
          let p ← parameterType owner d
          let (ps, os) ← items typeNames level seen rest
          return (p :: ps, os)
      | .object d => do
          let o ← objectType typeNames owner d
          let (ps, os) ← items typeNames level seen rest
          return (ps, o :: os)

/-- A level of a schema that declares the levels `levelNames` and the types `typeNames`. -/
def level (levelNames typeNames : List String) (d : LevelDecl) : Check Level := do
  let name := d.name.value
  if let some parent := d.parent then
    if !levelNames.contains parent.value then
      Noted.note (.undeclaredLevel name parent)
  let (parameterTypes, objectTypes) ← items typeNames name [] d.items
  if objectTypes.isEmpty then
    Noted.note (.noObjectType d.name)
  let description ← describe name d.description
  return ⟨d.name, description, d.parent, parameterTypes, objectTypes, d.span⟩

/-- The levels of a schema. -/
def levels (levelNames typeNames : List String) (seen : Seen) : List LevelDecl → Check (List Level)
  | [] => pure []
  | d :: ds => do
      let seen ← checkName .level seen d.name d.name.value
      let l ← level levelNames typeNames d
      let rest ← levels levelNames typeNames seen ds
      return l :: rest

end Load

namespace Document

/-- The names of the levels. -/
def levelNames (d : Document) : List String :=
  d.levels.map (·.name.value)

/-- The names of the types, in whatever level they are declared. -/
def typeNames (d : Document) : List String :=
  d.levels.flatMap fun l => l.items.map (·.name.value)

/-- Check the declarations of a document and build its schema. -/
def load (d : Document) : Noted LoadFinding Schema := do
  if d.levels.isEmpty then
    Noted.note .noLevel
  let levels ← Load.levels d.levelNames d.typeNames [] d.levels
  return ⟨levels⟩

end Document

/-- The schema of a text, with the warnings about it, or the reasons why it has none. -/
def Schema.ofSource (source : String) : Except Rejection (Noted Diagnostic Schema) := do
  let lexemes ← scan source
  let document ← Document.ofLexemes lexemes
  (document.load.mapNotes LoadFinding.diagnostic).conclude

end LevelSchema
