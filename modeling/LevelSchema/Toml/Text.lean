import LevelSchema.Toml.Reader

/-!
# TOML strings

A string is written between double quotes, where a backslash starts an escape, or between single
quotes, where every character stands for itself.  Either form can run over several lines between
tripled quotes: a line end directly after the opening is dropped, and up to two quotes may stand
before the closing ones.
-/

namespace LevelSchema.Toml.Reader

/-! ## Escapes -/

/-- The value of a hexadecimal digit. -/
def hexValue (c : Char) : Nat :=
  if c.isDigit then c.toNat - '0'.toNat
  else if 'a' ≤ c then c.toNat - 'a'.toNat + 10
  else c.toNat - 'A'.toNat + 10

/-- Whether a character is a hexadecimal digit. -/
def isHex (c : Char) : Bool :=
  c.isDigit || ('a' ≤ c && c ≤ 'f') || ('A' ≤ c && c ≤ 'F')

/-- A character given by a number of hexadecimal digits. -/
def codePoint (size : Nat) : Reader Char := do
  let digits ← times size isHex
  let n := digits.foldl (fun n c => 16 * n + hexValue c) 0
  if n.isValidChar then return Char.ofNat n else failure

/-- A character written as an escape. -/
def escape : Reader Char := do
  exactly "\\"
  match ← char fun _ => true with
  | 'b' => return '\x08'
  | 't' => return '\t'
  | 'n' => return '\n'
  | 'f' => return '\x0c'
  | 'r' => return '\r'
  | 'e' => return '\x1b'
  | '"' => return '"'
  | '\\' => return '\\'
  | 'x' => codePoint 2
  | 'u' => codePoint 4
  | 'U' => codePoint 8
  | _ => failure

/-! ## Strings on one line -/

/-- A string between double quotes. -/
def basicString : Reader String := do
  exactly "\""
  let cs ← many (char (fun c => isPrintable c && c ≠ '"' && c ≠ '\\') <|> escape)
  exactly "\""
  return String.ofList cs

/-- A string between single quotes. -/
def literalString : Reader String := do
  exactly "'"
  let cs ← run fun c => isPrintable c && c ≠ '\''
  exactly "'"
  return String.ofList cs

/-! ## Strings on several lines -/

/-- A line end as it is written. -/
def lineEnd : Reader (List Char) := do
  return (← written newline).1.toList

/-- A backslash at the end of a line, with all blank space and line ends up to the next word. -/
def continuation : Reader (List Char) := do
  exactly "\\"
  blanks
  newline
  let _ ← many (blanks *> newline)
  blanks
  return []

/-- One or two quotes inside a string. -/
def innerQuotes (quote : Char) : Reader (List Char) := do
  let quotes ← run (· == quote)
  if quotes.length < 3 then return quotes else failure

/-- The quotes that close a string: the last three of at most five. -/
def closingQuotes (quote : Char) : Reader (List Char) := do
  let quotes ← run (· == quote)
  if 3 ≤ quotes.length ∧ quotes.length ≤ 5 then return quotes.drop 3 else failure

/-- A string between tripled quotes, made of the given pieces, line ends and single quotes. -/
def tripled (quote : Char) (piece : Reader (List Char)) : Reader String := do
  let _ ← times 3 (· == quote)
  let _ ← optional newline
  let pieces ← many (piece <|> lineEnd <|> innerQuotes quote)
  let last ← closingQuotes quote
  return String.ofList (pieces.flatten ++ last)

/-- A string between tripled double quotes. -/
def longBasicString : Reader String :=
  tripled '"'
    ((do return [← char fun c => isPrintable c && c ≠ '"' && c ≠ '\\']) <|> continuation <|>
      (do return [← escape]))

/-- A string between tripled single quotes. -/
def longLiteralString : Reader String :=
  tripled '\'' (do return [← char fun c => isPrintable c && c ≠ '\''])

/-- A string in any form. -/
def text : Reader String :=
  longBasicString <|> basicString <|> longLiteralString <|> literalString

end LevelSchema.Toml.Reader
