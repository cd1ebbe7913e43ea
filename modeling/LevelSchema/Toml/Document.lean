import LevelSchema.Toml.Number
import LevelSchema.Toml.Table

/-!
# TOML documents

A document is a sequence of lines: a header, an entry, or neither, with a comment if need be.
Arrays and tables written as values run over as many lines as they like.  Values can be nested up
to a fixed depth, and a key cannot have more parts than that.
-/

namespace LevelSchema.Toml

open Settings (Value)

/-- How deep values can be nested, and how many parts a key can have. -/
def maxDepth : Nat := 80

namespace Reader

/-! ## Keys -/

/-- A key without dots. -/
def simpleKey : Reader String :=
  basicString <|> literalString <|> (do
    let cs ← run fun c => c.isAlphanum || c == '_' || c == '-'
    if cs.isEmpty then failure else return String.ofList cs)

/-- A key, maybe dotted. -/
def key : Reader Key := do
  let first ← simpleKey
  let rest ← many (blanks *> exactly "." *> blanks *> simpleKey)
  if rest.length < maxDepth then
    return ⟨(first :: rest).dropLast, (first :: rest).getLast (by simp)⟩
  else
    failure

/-- A key and its value. -/
def entry (value : Reader Value) : Reader (Key × Value) := do
  let k ← key
  blanks
  exactly "="
  blanks
  return (k, ← value)

/-! ## Values -/

/-- A truth value. -/
def boolean : Reader Bool :=
  (exactly "true" *> pure true) <|> (exactly "false" *> pure false)

/-- A value without parts. -/
def scalar : Reader Value :=
  (.string <$> text) <|> (.boolean <$> boolean) <|> moment <|> float <|> integer

/-- An array of values. -/
def array (value : Reader Value) : Reader Value := do
  exactly "["
  let values ← items value
  exactly "]"
  return .array values

/-- A table written as a value. -/
def inlineTable (value : Reader Value) : Reader Value := do
  exactly "\x7b"
  let entries ← items (entry value)
  exactly "\x7d"
  match entries.foldlM (fun es (k, v) => Entries.assign k.last v k.path es) [] with
  | some es => return Entries.toValue es
  | none => failure

/-- A value whose parts are nested at most `depth` deep. -/
def value : Nat → Reader Value
  | 0 => scalar
  | depth + 1 => scalar <|> array (value depth) <|> inlineTable (value depth)

/-! ## Lines -/

/-- A header or an entry. -/
def statement : Reader Statement :=
  (do
    exactly "[["
    blanks
    let k ← key
    blanks
    exactly "]]"
    return .item k) <|> (do
    exactly "["
    blanks
    let k ← key
    blanks
    exactly "]"
    return .table k) <|> (do
    let (k, v) ← entry (value maxDepth)
    return .entry k v)

/-- A line without its end. -/
def line : Reader (Option Statement) := do
  blanks
  let s ← optional statement
  blanks
  let _ ← optional comment
  return s

/-- All lines of a document. -/
def lines : Reader (List Statement) := do
  let _ ← optional (exactly "\uFEFF")
  let init ← many (line <* newline)
  let last ← line
  atEnd
  return init.filterMap id ++ last.toList

end Reader

/-- The table that a text describes, if it is a TOML document. -/
def ofText? (text : String) : Option Value :=
  match Reader.lines text.toList with
  | some (statements, _) => tableOf statements
  | none => none

end LevelSchema.Toml
