import LevelSchema.Source
import LevelSchema.Diagnostic.Code

/-!
# Diagnostics

A diagnostic is one error or warning: a message, labelled places in the source, perhaps a code and
perhaps a hint.  A **rejection** is the list of diagnostics with which a stage refuses its input,
warnings included, in the order in which they were found; it is shown and classified by its first
error.

**Building.** `Diagnostic.error` and `Diagnostic.warning` start a diagnostic, and `code`, `primary`,
`secondary` and `hint` add to it.  Labels keep the order in which they were added.
-/

namespace LevelSchema

/-- How serious a diagnostic is. -/
inductive Severity
  | error
  | warning
deriving DecidableEq

/-- The name of a severity. -/
def Severity.label : Severity → String
  | .error => "error"
  | .warning => "warning"

/-- A place in the source with a remark.  The primary labels say where the mistake is, the others
where something related stands. -/
structure Label where
  span : Span
  message : String
  isPrimary : Bool
deriving DecidableEq

/-- One error or warning. -/
structure Diagnostic where
  severity : Severity
  code : Option Code
  message : String
  labels : List Label
  help : Option String
deriving DecidableEq

namespace Diagnostic

/-! ## Building -/

/-- An error that so far has a message only. -/
def error (message : String) : Diagnostic :=
  ⟨.error, none, message, [], none⟩

/-- A warning that so far has a message only. -/
def warning (message : String) : Diagnostic :=
  ⟨.warning, none, message, [], none⟩

/-- Give the diagnostic a code. -/
def withCode (d : Diagnostic) (code : Code) : Diagnostic :=
  { d with code := some code }

/-- Add a label at the place of the mistake. -/
def primary (d : Diagnostic) (span : Span) (message : String) : Diagnostic :=
  { d with labels := d.labels ++ [⟨span, message, true⟩] }

/-- Add a label at a related place. -/
def secondary (d : Diagnostic) (span : Span) (message : String) : Diagnostic :=
  { d with labels := d.labels ++ [⟨span, message, false⟩] }

/-- Add a hint. -/
def hint (d : Diagnostic) (help : String) : Diagnostic :=
  { d with help := some help }

/-! ## Reading -/

/-- Whether the diagnostic is an error. -/
def isError (d : Diagnostic) : Bool :=
  d.severity == .error

/-- The category of the code; without a code, a mistake in a definition. -/
def category (d : Diagnostic) : Category :=
  match d.code with
  | some code => code.category
  | none => .definition

/-- The place of the first primary label. -/
def primarySpan (d : Diagnostic) : Option Span :=
  (d.labels.find? (·.isPrimary)).map (·.span)

/-- The diagnostic on one line: severity, code and message. -/
def display (d : Diagnostic) : String :=
  match d.code with
  | some code => d.severity.label ++ "[" ++ code.number ++ "]: " ++ d.message
  | none => d.severity.label ++ ": " ++ d.message

end Diagnostic

/-! ## Rejections -/

/-- Why a stage refused its input: everything it noticed, in the order in which it was noticed. -/
structure Rejection where
  diagnostics : List Diagnostic
deriving DecidableEq

namespace Rejection

/-- The first error of the list. -/
def firstError (r : Rejection) : Option Diagnostic :=
  r.diagnostics.find? (·.isError)

/-- The category of the first error. -/
def category (r : Rejection) : Category :=
  match r.firstError with
  | some d => d.category
  | none => .definition

/-- Whether some diagnostic, warnings included, is of the category. -/
def hasCategory (r : Rejection) (c : Category) : Bool :=
  r.diagnostics.any fun d => d.category == c

/-- The first error on one line, or the first warning if there is no error, with the number of the
other diagnostics behind it. -/
def display (r : Rejection) : String :=
  match r.firstError <|> r.diagnostics.head? with
  | none => ""
  | some d =>
      let others := r.diagnostics.length - 1
      if others = 0 then d.display else d.display ++ " (+" ++ toString others ++ " more)"

end Rejection

end LevelSchema
