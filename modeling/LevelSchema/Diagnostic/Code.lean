/-!
# Diagnostic codes

Every error the compiler can report has a code, and every code belongs to one category.  The first
digit of a code names the stage that reports it: `0` for reading tokens, `1` for the grammar, `2`
for checking declarations one by one, `3` for resolving inheritance and references.
-/

namespace LevelSchema

/-- What kind of mistake a diagnostic is about. -/
inductive Category
  | definition
  | nameCollision
  | cycle
  | unknownTypeReference
  | invalidFlagValue
deriving DecidableEq

namespace Category

/-- The categories in the order in which they are listed. -/
def all : List Category :=
  [.definition, .nameCollision, .cycle, .unknownTypeReference, .invalidFlagValue]

/-- The name under which a category is reported. -/
def label : Category → String
  | .definition => "DefinitionError"
  | .nameCollision => "NameCollisionError"
  | .cycle => "CycleError"
  | .unknownTypeReference => "UnknownTypeReferenceError"
  | .invalidFlagValue => "InvalidFlagValueError"

end Category

/-- The code of an error. -/
inductive Code
  | unterminatedString
  | unexpectedCharacter
  | invalidEscape
  | integerOutOfRange
  | unexpectedToken
  | incompleteInput
  | reservedIdentifier
  | duplicateDeclaration
  | undeclaredExtendsTarget
  | invalidFlagValue
  | emptyDeclaration
  | invalidEnumerationValue
  | unknownTypeReference
  | nameCollision
  | inheritanceCycle
  | typeKindMismatch
deriving DecidableEq

namespace Code

/-- Every code, in the order of its number. -/
def all : List Code :=
  [.unterminatedString, .unexpectedCharacter, .invalidEscape, .integerOutOfRange,
   .unexpectedToken, .incompleteInput, .reservedIdentifier, .duplicateDeclaration,
   .undeclaredExtendsTarget, .invalidFlagValue, .emptyDeclaration, .invalidEnumerationValue,
   .unknownTypeReference, .nameCollision, .inheritanceCycle, .typeKindMismatch]

/-- The code as it is shown. -/
def number : Code → String
  | .unterminatedString => "E001"
  | .unexpectedCharacter => "E002"
  | .invalidEscape => "E003"
  | .integerOutOfRange => "E004"
  | .unexpectedToken => "E100"
  | .incompleteInput => "E101"
  | .reservedIdentifier => "E200"
  | .duplicateDeclaration => "E201"
  | .undeclaredExtendsTarget => "E202"
  | .invalidFlagValue => "E203"
  | .emptyDeclaration => "E204"
  | .invalidEnumerationValue => "E205"
  | .unknownTypeReference => "E300"
  | .nameCollision => "E301"
  | .inheritanceCycle => "E302"
  | .typeKindMismatch => "E303"

/-- What a code stands for, in words. -/
def description : Code → String
  | .unterminatedString => "unterminated string literal"
  | .unexpectedCharacter => "unexpected character"
  | .invalidEscape => "invalid escape sequence"
  | .integerOutOfRange => "integer literal out of range"
  | .unexpectedToken => "unexpected token"
  | .incompleteInput => "incomplete input"
  | .reservedIdentifier => "reserved identifier"
  | .duplicateDeclaration => "duplicate declaration"
  | .undeclaredExtendsTarget => "undeclared extends target"
  | .invalidFlagValue => "invalid flag value"
  | .emptyDeclaration => "empty declaration"
  | .invalidEnumerationValue => "invalid enumeration value"
  | .unknownTypeReference => "unknown type reference"
  | .nameCollision => "name collision"
  | .inheritanceCycle => "inheritance cycle"
  | .typeKindMismatch => "type kind mismatch"

/-- The category a code belongs to. -/
def category : Code → Category
  | .duplicateDeclaration | .nameCollision => .nameCollision
  | .undeclaredExtendsTarget | .unknownTypeReference => .unknownTypeReference
  | .invalidFlagValue => .invalidFlagValue
  | .inheritanceCycle => .cycle
  | _ => .definition

/-- The code shown as `text`. -/
def ofNumber? (text : String) : Option Code :=
  all.find? fun code => code.number == text

end Code

end LevelSchema
