import LevelSchema.Diagnostic.Basic

/-!
# Reports

A report is a diagnostic as it is shown to a person: its message, its code together with the
category, and each label as the offset and length of what it marks.
-/

namespace LevelSchema

/-- A label by offset and length. -/
structure ReportLabel where
  offset : Nat
  length : Nat
  message : String
  isPrimary : Bool
deriving DecidableEq

/-- A diagnostic ready to be shown next to the source it is about. -/
structure Report where
  text : String
  code : Option String
  severity : Severity
  help : Option String
  source : String
  labels : List ReportLabel
deriving DecidableEq

namespace Report

/-- A code with its category in front. -/
def codeText (code : Code) : String :=
  code.category.label ++ "[" ++ code.number ++ "]"

/-- The report of one diagnostic about `source`. -/
def ofDiagnostic (source : String) (d : Diagnostic) : Report where
  text := d.message
  code := d.code.map codeText
  severity := d.severity
  help := d.help
  source := source
  labels := d.labels.map fun l => ⟨l.span.start, l.span.length, l.message, l.isPrimary⟩

/-- One report for each diagnostic of a rejection. -/
def ofRejection (source : String) (r : Rejection) : List Report :=
  r.diagnostics.map (ofDiagnostic source)

end Report

end LevelSchema
