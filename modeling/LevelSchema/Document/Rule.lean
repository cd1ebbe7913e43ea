import LevelSchema.Token.Basic

/-!
# Grammar rules

A `Rule` looks at the front of a token list.  It **matches** and says what it read and what is left;
it **does not match**, so that something else may be tried at the same place; or it **fails**,
because enough was seen to know what had to follow and something else stands there.

A failure remembers what was expected, where the construct began that expected it, and where the
offending token is.  Nothing is tried after a failure: it is the one mistake a document reports.
-/

namespace LevelSchema

/-- What a declaration calls for at some place. -/
inductive Expectation
  | levelDeclaration
  | spaceAfter (word : Keyword)
  | spaceBeforePropertyName
  | levelName
  | parentName
  | parameterName
  | memberName
  | memberValue
  | objectName
  | propertyType
  | propertyName
  | multiple
  | rightBracket
  | endOfLine
deriving DecidableEq

/-- What is expected, in words, from the single token to the construct it is part of. -/
def Expectation.phrases : Expectation → List String
  | .levelDeclaration => ["`AbstractionLevel` declaration"]
  | .spaceAfter word => ["whitespace after `" ++ word.spelling ++ "`"]
  | .spaceBeforePropertyName => ["whitespace between property type and name"]
  | .levelName => ["identifier", "abstraction level name"]
  | .parentName => ["identifier", "name after `extends`"]
  | .parameterName => ["identifier", "parameter type name"]
  | .memberName => ["identifier", "member name"]
  | .memberValue => ["integer", "member value"]
  | .objectName => ["identifier", "object type name"]
  | .propertyType => ["identifier", "property type"]
  | .propertyName => ["identifier", "property name"]
  | .multiple => ["`Multiple`"]
  | .rightBracket => ["`]`"]
  | .endOfLine => ["end of line"]

/-- A place where the grammar is broken: `start` is what stood before the construct that failed,
`rest` begins with the offending token, or is empty at the end of the text. -/
structure GrammarFailure where
  expected : Expectation
  start : List Lexeme
  rest : List Lexeme

/-- What a rule makes of the front of a token list. -/
inductive Outcome (α : Type)
  | matched (value : α) (rest : List Lexeme)
  | unmatched
  | failed (failure : GrammarFailure)

/-- A rule for something of type `α`. -/
def Rule (α : Type) := List Lexeme → Outcome α

namespace Rule

variable {α β : Type}

instance : Monad Rule where
  pure a := fun ts => .matched a ts
  bind r f := fun ts =>
    match r ts with
    | .matched a rest => f a rest
    | .unmatched => .unmatched
    | .failed e => .failed e

/-- The tokens at this place; always matches and takes nothing. -/
def here : Rule (List Lexeme) :=
  fun ts => .matched ts ts

/-- One token that `f` accepts. -/
def accept (f : Lexeme → Option α) : Rule α
  | [] => .unmatched
  | t :: ts =>
      match f t with
      | some a => .matched a ts
      | none => .unmatched

/-- One token that `f` accepts and that has to be here, in a construct that began at `start`. -/
def require (start : List Lexeme) (expected : Expectation) (f : Lexeme → Option α) : Rule α :=
  fun ts =>
    match accept f ts with
    | .unmatched => .failed ⟨expected, start, ts⟩
    | other => other

/-- Try a rule; if it does not match, go on at the same place without it. -/
def optional (r : Rule α) : Rule (Option α) :=
  fun ts =>
    match r ts with
    | .matched a rest => .matched (some a) rest
    | .unmatched => .matched none ts
    | .failed e => .failed e

/-- Try a rule; if it does not match, try another at the same place. -/
def orElse (r s : Rule α) : Rule α :=
  fun ts =>
    match r ts with
    | .unmatched => s ts
    | other => other

/-- Apply a rule as often as it matches.  A match that takes nothing is the last one. -/
def many (r : Rule α) (ts : List Lexeme) : Except GrammarFailure (List α × List Lexeme) :=
  match r ts with
  | .unmatched => .ok ([], ts)
  | .failed e => .error e
  | .matched a rest =>
      if rest.length < ts.length then
        match many r rest with
        | .ok (as, last) => .ok (a :: as, last)
        | .error e => .error e
      else
        .ok ([a], rest)
termination_by ts.length

/-- Apply a rule as often as it matches, as a rule that always matches. -/
def repeated (r : Rule α) : Rule (List α) :=
  fun ts =>
    match many r ts with
    | .ok (as, rest) => .matched as rest
    | .error e => .failed e

end Rule

end LevelSchema
