/-!
# Configuration values

The values a configuration can hold, in whichever form it is written.  Tables keep their entries in
the order of the document, each key once.  Fractional numbers, dates and times keep the text they
were written with: no setting asks for one, so all that matters about them is what they are.

A number that is too large for any machine number is **out of range**.  It may stand in a document,
but nobody can ask for it.
-/

namespace LevelSchema.Settings

/-- A value in a configuration. -/
inductive Value
  | null
  | string (text : String)
  | integer (value : Int)
  | float (text : String)
  | outOfRange
  | boolean (value : Bool)
  | moment (text : String)
  | array (items : List Value)
  | table (entries : List (String × Value))
deriving Inhabited

mutual

/-- Whether no number in a value is out of range. -/
def Value.isInRange : Value → Bool
  | .outOfRange => false
  | .array items => Value.itemsInRange items
  | .table entries => Value.entriesInRange entries
  | _ => true

/-- Whether no number in the items of an array is out of range. -/
def Value.itemsInRange : List Value → Bool
  | [] => true
  | item :: rest => item.isInRange && Value.itemsInRange rest

/-- Whether no number in the entries of a table is out of range. -/
def Value.entriesInRange : List (String × Value) → Bool
  | [] => true
  | (_, value) :: rest => value.isInRange && Value.entriesInRange rest

end

end LevelSchema.Settings
