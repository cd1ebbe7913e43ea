import LevelSchema.Settings.Basic
import LevelSchema.Settings.Value

/-!
# Settings from a configuration

A configuration is a table with the sections `emit` and `schema`.  A missing section or entry has
its default, an entry that no setting answers to is ignored, and an entry of the wrong type makes
the whole configuration unreadable.  So does a number out of range, also where it is ignored.

A section is usually a table.  It may also be an array that lists the first few entries by
position, and a date or time counts as a section that sets nothing.

Configurations are written in two **forms**, TOML and JSON, and two rules depend on the form.

* Items of an array beyond the entries of its section are skipped unread in TOML and an error in
  JSON.
* A layout may be the one key of a table, with nothing behind it.  In TOML an empty table or array
  is nothing, in JSON it is `null`.
-/

namespace LevelSchema.Settings

/-- What a configuration is written in. -/
inductive Form
  | toml
  | json
deriving DecidableEq

/-- How to find the entries of a section. -/
abbrev Section := String → Option Value

/-- A value read as a section with the given keys: by key in a table, by place in an array. -/
def section? (form : Form) (keys : List String) : Value → Option Section
  | .table entries =>
      if entries.all fun (key, value) => keys.contains key || value.isInRange then
        some fun key => entries.lookup key
      else none
  | .array items =>
      if form = .toml ∨ items.length ≤ keys.length then some fun key => items[keys.idxOf key]?
      else none
  | .moment _ => some fun _ => none
  | _ => none

/-- A value read as a text. -/
def text? : Value → Option String
  | .string s => some s
  | _ => none

/-- A value read as a truth value. -/
def boolean? : Value → Option Bool
  | .boolean b => some b
  | _ => none

/-- A value read as a list of texts. -/
def texts? : Value → Option (List String)
  | .array items => items.mapM text?
  | _ => none

/-- Whether a value stands for nothing. -/
def isNothing : Form → Value → Bool
  | .toml, .table [] => true
  | .toml, .array [] => true
  | .json, .null => true
  | _, _ => false

/-- A value read as a layout. -/
def layout? (form : Form) : Value → Option Layout
  | .string label => Layout.ofLabel? label
  | .table [(label, value)] => if isNothing form value then Layout.ofLabel? label else none
  | _ => none

/-- Read an entry if it is there; otherwise take the default. -/
def entryOr {α : Type} (default : α) (read : Value → Option α) : Option Value → Option α
  | none => some default
  | some v => read v

/-- The section on generated source. -/
def emit? (form : Form) (v : Value) : Option EmitSettings := do
  let entry ← section? form ["layout", "primitives_path", "derives", "header"] v
  let base : EmitSettings := {}
  let layout ← entryOr base.layout (layout? form) (entry "layout")
  let primitivesPath ← entryOr base.primitivesPath text? (entry "primitives_path")
  let derives ← entryOr base.derives texts? (entry "derives")
  let header ← entryOr base.header boolean? (entry "header")
  return ⟨layout, primitivesPath, derives, header⟩

/-- The section on schemas: the extra primitives. -/
def extraPrimitives? (form : Form) (v : Value) : Option (List String) := do
  let entry ← section? form ["extra_primitives"] v
  entryOr [] texts? (entry "extra_primitives")

/-- The settings a configuration describes. -/
def ofValue? (form : Form) (v : Value) : Option Settings := do
  let entry ← section? form ["emit", "schema"] v
  let emit ← entryOr {} (emit? form) (entry "emit")
  let extraPrimitives ← entryOr [] (extraPrimitives? form) (entry "schema")
  return ⟨emit, extraPrimitives⟩

end LevelSchema.Settings
