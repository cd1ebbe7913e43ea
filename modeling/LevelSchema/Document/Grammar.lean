import LevelSchema.Diagnostic.Basic
import LevelSchema.Document.Basic
import LevelSchema.Document.Rule

/-!
# The grammar of schema text

Nesting is shown by indentation: parameter and object declarations stand one level deep, members
and properties two levels deep, and a level is `indentWidth` columns.

```text
"description"
AbstractionLevel Name extends Parent
    Parameter Name [Multiple]
        Member = 1
    Object Name extends Base
        TypeName PropertyName
```

A description is a line with a string, at the depth of the declaration it stands above.  Lines
that are blank or hold only a comment may stand anywhere between the others.

**Where the grammar commits itself.**  A level, parameter or object declaration is recognised by its
keyword, a member or property by the indentation of its line, a clause by the token it begins with.
From there on everything else is required.  Before that point a line that fits nothing simply ends
the list it could have continued, and in the end the document, which then expected a level.
-/

namespace LevelSchema

namespace Grammar

open Rule

/-! ## Tokens -/

/-- Keep a token if it is `t`. -/
def only (t : Token) (l : Lexeme) : Option Span :=
  if l.token = t then some l.span else none

/-- A name at its place. -/
def nameOf (l : Lexeme) : Option (Located String) :=
  l.token.asName?.map (⟨·, l.span⟩)

/-- A string at its place. -/
def stringOf (l : Lexeme) : Option (Located String) :=
  match l.token with
  | .string content => some ⟨content, l.span⟩
  | _ => none

/-- An integer at its place. -/
def integerOf (l : Lexeme) : Option (Located UInt64) :=
  match l.token with
  | .integer value => some ⟨value, l.span⟩
  | _ => none

/-- An indent of any width. -/
def isIndent (l : Lexeme) : Bool :=
  match l.token with
  | .indent _ => true
  | _ => false

/-- A comment. -/
def isComment (l : Lexeme) : Bool :=
  match l.token with
  | .comment _ => true
  | _ => false

/-- A space inside a line. -/
def isSpaceToken (l : Lexeme) : Bool :=
  l.token == .space

/-- The tokens after the first, if the first is as `p` says; otherwise all of them. -/
def skipOne (p : Lexeme → Bool) : List Lexeme → List Lexeme
  | [] => []
  | t :: ts => if p t then ts else t :: ts

/-! ## Lines -/

/-- The tokens after a trailing space and comment. -/
def skipTrailing (ts : List Lexeme) : List Lexeme :=
  skipOne isComment (skipOne isSpaceToken ts)

/-- The tokens of the next line, if nothing but a space and a comment is left on this one. -/
def afterLineEnd? (ts : List Lexeme) : Option (List Lexeme) :=
  match skipTrailing ts with
  | [] => some []
  | t :: rest => if t.token = .newline then some rest else none

/-- The tokens after a blank line: one with an indent, a space and a comment at most. -/
def afterBlankLine? (ts : List Lexeme) : Option (List Lexeme) :=
  match skipTrailing (skipOne isIndent ts) with
  | [] => none
  | t :: rest => if t.token = .newline then some rest else none

theorem length_skipOne_le (p : Lexeme → Bool) (ts : List Lexeme) :
    (skipOne p ts).length ≤ ts.length := by
  cases ts with
  | nil => exact Nat.le_refl _
  | cons t ts => simp only [skipOne]; split <;> simp

theorem length_skipTrailing_le (ts : List Lexeme) : (skipTrailing ts).length ≤ ts.length :=
  Nat.le_trans (length_skipOne_le _ _) (length_skipOne_le _ _)

theorem length_of_afterBlankLine? {ts rest : List Lexeme} (h : afterBlankLine? ts = some rest) :
    rest.length < ts.length := by
  unfold afterBlankLine? at h
  split at h
  · exact nomatch h
  · rename_i t r hs
    have hlen := Nat.le_trans (length_skipTrailing_le _) (length_skipOne_le isIndent ts)
    split at h
    · cases h; rw [hs] at hlen; exact hlen
    · exact nomatch h

/-- The tokens after all blank lines. -/
def skipBlankLines (ts : List Lexeme) : List Lexeme :=
  match _h : afterBlankLine? ts with
  | some rest => skipBlankLines rest
  | none => ts
termination_by ts.length
decreasing_by exact length_of_afterBlankLine? _h

/-- Blank lines, as a rule that always matches. -/
def blankLines : Rule Unit :=
  fun ts => .matched () (skipBlankLines ts)

/-- The end of a line, if it is here. -/
def lineEnd : Rule Unit :=
  fun ts =>
    match afterLineEnd? ts with
    | some rest => .matched () rest
    | none => .unmatched

/-- The end of a line, which has to be here. -/
def requireLineEnd (start : List Lexeme) : Rule Unit :=
  fun ts =>
    match afterLineEnd? ts with
    | some rest => .matched () rest
    | none => .failed ⟨.endOfLine, start, skipTrailing ts⟩

/-- The indentation of a line at the given depth.  At depth zero there is none. -/
def indented : Nat → Rule Unit
  | 0 => fun ts =>
      match ts with
      | t :: _ => if isIndent t then .unmatched else .matched () ts
      | [] => .matched () ts
  | depth + 1 => accept fun l =>
      if l.token = .indent ((depth + 1) * indentWidth) then some () else none

/-- A space, if there is one. -/
def maybeSpace : Rule Unit :=
  fun ts => .matched () (skipOne isSpaceToken ts)

/-- A description at the given depth, and the blank lines under it. -/
def description (depth : Nat) : Rule (Located String) := do
  indented depth
  let text ← accept stringOf
  lineEnd
  blankLines
  return text

/-! ## Clauses -/

/-- A clause that names what is extended. -/
def extendsClause : Rule (Located String) := do
  let _ ← accept (only .space)
  let _ ← accept (only (.keyword .extends))
  let start ← here
  let _ ← require start (.spaceAfter .extends) (only .space)
  require start .parentName nameOf

/-- The mark of a flag set. -/
def multipleMark : Rule Unit := do
  maybeSpace
  let _ ← accept (only .leftBracket)
  let start ← here
  maybeSpace
  let _ ← require start .multiple (only (.keyword .multiple))
  maybeSpace
  let _ ← require start .rightBracket (only .rightBracket)

/-- The value of a member. -/
def valueClause : Rule (Located UInt64) := do
  maybeSpace
  let _ ← accept (only .equals)
  let start ← here
  maybeSpace
  require start .memberValue integerOf

/-! ## Declarations -/

/-- A member. -/
def member : Rule MemberDecl := do
  let description ← optional (description 2)
  indented 2
  let start ← here
  let name ← require start .memberName nameOf
  let value ← optional valueClause
  requireLineEnd start
  return ⟨description, name, value⟩

/-- A parameter type and its members. -/
def parameterDecl : Rule ParameterDecl := do
  let description ← optional (description 1)
  indented 1
  let keyword ← accept (only (.keyword .parameter))
  let start ← here
  let _ ← require start (.spaceAfter .parameter) (only .space)
  let name ← require start .parameterName nameOf
  let mark ← optional multipleMark
  requireLineEnd start
  let members ← repeated (do blankLines; member)
  let span := coverAll (keyword.union name.span) (members.map (·.name.span))
  return ⟨description, name, mark.isSome, members, span⟩

/-- A property. -/
def property : Rule PropertyDecl := do
  let description ← optional (description 2)
  indented 2
  let start ← here
  let typeName ← require start .propertyType nameOf
  let _ ← require start .spaceBeforePropertyName (only .space)
  let name ← require start .propertyName nameOf
  requireLineEnd start
  return ⟨description, typeName, name⟩

/-- An object type and its properties. -/
def objectDecl : Rule ObjectDecl := do
  let description ← optional (description 1)
  indented 1
  let keyword ← accept (only (.keyword .object))
  let start ← here
  let _ ← require start (.spaceAfter .object) (only .space)
  let name ← require start .objectName nameOf
  let parent ← optional extendsClause
  requireLineEnd start
  let properties ← repeated (do blankLines; property)
  let span := coverAll (keyword.union name.span) (properties.map (·.name.span))
  return ⟨description, name, parent, properties, span⟩

/-- A declaration inside a level. -/
def levelItem : Rule LevelItem :=
  orElse (do return .parameter (← parameterDecl)) (do return .object (← objectDecl))

/-- An abstraction level and what it declares. -/
def levelDecl : Rule LevelDecl := do
  let description ← optional (description 0)
  indented 0
  let keyword ← accept (only (.keyword .abstractionLevel))
  let start ← here
  let _ ← require start (.spaceAfter .abstractionLevel) (only .space)
  let name ← require start .levelName nameOf
  let parent ← optional extendsClause
  requireLineEnd start
  let items ← repeated (do blankLines; levelItem)
  let span := coverAll (keyword.union name.span) (items.map LevelItem.span)
  return ⟨description, name, parent, items, span⟩

/-- A whole document: levels, then nothing but blank lines.  The last line needs no line break. -/
def document (ts : List Lexeme) : Except GrammarFailure Document :=
  match many (do blankLines; levelDecl) ts with
  | .error e => .error e
  | .ok (levels, rest) =>
      let last := skipBlankLines rest
      if (skipTrailing (skipOne isIndent last)).isEmpty then .ok ⟨levels⟩
      else .error ⟨.levelDeclaration, last, last⟩

end Grammar

/-! ## Reporting a failure -/

namespace GrammarFailure

/-- The tokens from the start of the failed construct to the offending token, which is included. -/
def examined (f : GrammarFailure) : List Lexeme :=
  f.start.take (f.start.length - f.rest.length + 1)

/-- The span of the examined tokens that are not trivia, if there is one; otherwise that of the
offending token; and at the end of the text that of its last token. -/
def span (f : GrammarFailure) (all : List Lexeme) : Span :=
  match (f.examined.filter fun l => !l.token.isTrivia).map (·.span) with
  | s :: ss => coverAll s ss
  | [] =>
      match f.rest.head? <|> all.getLast? with
      | some l => l.span
      | none => .atStart

/-- The diagnostic of a failure in a document with the tokens `all`.  An offending indent is
reported as such, whatever was expected in its place. -/
def diagnostic (f : GrammarFailure) (all : List Lexeme) : Diagnostic :=
  let unexpected (found : String) : Diagnostic :=
    (Diagnostic.error ("unexpected token: " ++
        " → ".intercalate (f.expected.phrases.map ("expected " ++ ·)))).withCode .unexpectedToken
      |>.primary (f.span all) ("found " ++ found)
      |>.hint "check the declaration syntax and its indentation"
  match f.rest.head? with
  | none => unexpected "end of input"
  | some ⟨.indent width, span⟩ =>
      (Diagnostic.error ("unexpected indentation of " ++ toString width ++ " columns"))
        |>.withCode .unexpectedToken
        |>.primary span "unexpected indentation"
        |>.hint ("indent by " ++ toString indentWidth ++ " spaces or a tab per level: " ++
          "declarations one level deep, members and properties two levels deep")
  | some l => unexpected l.token.display

end GrammarFailure

/-- Read the tokens of a text as a document, or report the first place that breaks the grammar. -/
def Document.ofLexemes (ts : List Lexeme) : Except Rejection Document :=
  match Grammar.document ts with
  | .ok d => .ok d
  | .error f => .error ⟨[f.diagnostic ts]⟩

end LevelSchema
