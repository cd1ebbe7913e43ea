import LevelSchema.Diagnostic.Basic
import LevelSchema.Schema.Basic

/-!
# What can be wrong with a declaration

The findings of checking declarations one by one, each with what it is about, and the wording under
which it is reported.  Every finding but the last is an error; an empty description is only worth
a warning.
-/

namespace LevelSchema

/-- What a declared name is the name of. -/
inductive NameRole
  | level
  | type
  | member (kind : ParameterKind)
  | property
deriving DecidableEq

/-- A role in words. -/
def NameRole.label : NameRole → String
  | .level => "abstraction level"
  | .type => "type"
  | .member _ => "member"
  | .property => "property"

/-- Why a name cannot be used. -/
inductive ReservedReason
  | notAnIdentifier
  | shadowsStandardName
  | constructorTaken
  | listingTaken
deriving DecidableEq

/-- The reason why `name` cannot be used, in words. -/
def ReservedReason.message (name : String) : ReservedReason → String
  | .notAnIdentifier => "`" ++ name ++ "` cannot be used as an identifier in generated code"
  | .shadowsStandardName => "`" ++ name ++ "` would shadow a standard library name"
  | .constructorTaken => "generated objects already have a `new` constructor"
  | .listingTaken => "generated enumerations already have an `ALL` constant"

/-- Something noticed about a declaration.  Owners are given by their qualified names. -/
inductive LoadFinding
  | noLevel
  | reservedName (role : NameRole) (name : Located String) (owner : String)
      (reason : ReservedReason)
  | repeatedName (role : NameRole) (name : Located String) (owner key : String)
      (first : Located String)
  | undeclaredLevel (level : String) (parent : Located String)
  | undeclaredType (object : String) (parent : Located String)
  | noObjectType (level : Located String)
  | noMember (parameter : String) (span : Span)
  | missingFlagValue (member : String) (name : Located String)
  | notSingleBit (member : String) (value : UInt64) (span : Span)
  | valueOutOfRange (kind : ParameterKind) (member : String) (value : UInt64) (span : Span)
  | repeatedValue (kind : ParameterKind) (member : String) (value : UInt64) (span : Span)
      (parameter : String) (first : Located String)
  | emptyDescription (owner : String) (span : Span)
deriving DecidableEq

namespace LoadFinding

/-- The code for a bad member value. -/
def valueCode : ParameterKind → Code
  | .enumeration => .invalidEnumerationValue
  | .flagSet => .invalidFlagValue

/-- The largest value a member can have. -/
def largestValue : Nat := UInt32.size - 1

/-- How a finding is reported. -/
def diagnostic : LoadFinding → Diagnostic
  | .noLevel =>
      (Diagnostic.error "schema declares no abstraction level").withCode .emptyDeclaration
        |>.primary .atStart "expected an `AbstractionLevel` declaration"
        |>.hint "start the schema with `AbstractionLevel <Name>`"
  | .reservedName role name owner reason =>
      (Diagnostic.error ("reserved name for " ++ role.label ++ " `" ++ owner ++ "`"))
        |>.withCode .reservedIdentifier
        |>.primary name.span "reserved"
        |>.hint (reason.message name.value)
  | .repeatedName role name owner key first =>
      let clash :=
        if first.value == name.value then
          (Diagnostic.error ("duplicate " ++ role.label ++ " `" ++ owner ++ "`"))
            |>.hint ("rename one of the " ++ role.label ++ " declarations")
        else
          (Diagnostic.error
              (role.label ++ " `" ++ owner ++ "` clashes with `" ++ first.value ++ "`"))
            |>.hint ("both names produce the generated name `" ++ key ++ "`")
      clash.withCode .duplicateDeclaration
        |>.primary name.span "declared again here"
        |>.secondary first.span "first declared here"
  | .undeclaredLevel level parent =>
      (Diagnostic.error ("abstraction level `" ++ level ++ "` extends undeclared level `" ++
          parent.value ++ "`")).withCode .undeclaredExtendsTarget
        |>.primary parent.span "no abstraction level with this name"
        |>.hint ("declare `AbstractionLevel " ++ parent.value ++ "` in the same schema")
  | .undeclaredType object parent =>
      (Diagnostic.error ("object type `" ++ object ++ "` extends undeclared type `" ++
          parent.value ++ "`")).withCode .undeclaredExtendsTarget
        |>.primary parent.span "no type with this name in the schema"
        |>.hint ("declare `Object " ++ parent.value ++ "` in this or an ancestor level")
  | .noObjectType level =>
      (Diagnostic.error ("abstraction level `" ++ level.value ++ "` declares no object type"))
        |>.withCode .emptyDeclaration
        |>.primary level.span "declared here"
        |>.hint "every abstraction level needs at least one `Object` declaration"
  | .noMember parameter span =>
      (Diagnostic.error ("parameter type `" ++ parameter ++ "` declares no member"))
        |>.withCode .emptyDeclaration
        |>.primary span "declared here"
        |>.hint "list at least one member, indented below the declaration"
  | .missingFlagValue member name =>
      (Diagnostic.error ("flag `" ++ member ++ "` has no value")).withCode .invalidFlagValue
        |>.primary name.span "value missing"
        |>.hint ("flag members need an explicit power of two, e.g. `" ++ name.value ++ " = 1`")
  | .notSingleBit member value span =>
      (Diagnostic.error ("flag `" ++ member ++ "` has value " ++ toString value.toNat ++
          ", which is not a power of two")).withCode .invalidFlagValue
        |>.primary span "not a single bit"
        |>.hint "use 1, 2, 4, 8, ... so that flags can be combined"
  | .valueOutOfRange kind member value span =>
      (Diagnostic.error ("value " ++ toString value.toNat ++ " of `" ++ member ++
          "` does not fit in 32 bits")).withCode (valueCode kind)
        |>.primary span "out of range"
        |>.hint ("member values must not exceed " ++ toString largestValue)
  | .repeatedValue kind member value span parameter first =>
      (Diagnostic.error ("`" ++ member ++ "` reuses value " ++ toString value.toNat ++ " of `" ++
          Name.nested parameter first.value ++ "`")).withCode (valueCode kind)
        |>.primary span "duplicate value"
        |>.secondary first.span "first used here"
        |>.hint "members of a parameter type need distinct values"
  | .emptyDescription owner span =>
      (Diagnostic.warning ("description of `" ++ owner ++ "` is empty"))
        |>.primary span "empty description"
        |>.hint "write a description or remove the line"

end LoadFinding

end LevelSchema
