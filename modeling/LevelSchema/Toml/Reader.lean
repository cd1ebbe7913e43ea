/-!
# Readers

A `Reader` takes something from the front of a text, or fails.  A configuration is either readable
as a whole or not, so a failure carries nothing.

**Blank space.**  Spaces and tabs separate words on a line.  Inside brackets a *gap* may also hold
line ends and comments.  A carriage return counts only before a line feed.
-/

namespace LevelSchema.Toml

/-- A reader of something of type `α`. -/
abbrev Reader := StateT (List Char) Option

namespace Reader

variable {α : Type}

/-! ## Characters -/

/-- One character that satisfies `p`. -/
def char (p : Char → Bool) : Reader Char
  | c :: cs => if p c then some (c, cs) else none
  | [] => none

/-- The given characters. -/
def exactly (word : String) : Reader Unit :=
  fun cs => if word.toList.isPrefixOf cs then some ((), cs.drop word.length) else none

/-- The longest run of characters that satisfy `p`, maybe empty. -/
def run (p : Char → Bool) : Reader (List Char) :=
  fun cs => some (cs.takeWhile p, cs.dropWhile p)

/-- A number of characters that all satisfy `p`. -/
def times (n : Nat) (p : Char → Bool) : Reader (List Char) :=
  fun cs =>
    if (cs.take n).length == n && (cs.take n).all p then some (cs.take n, cs.drop n) else none

/-- The end of the text. -/
def atEnd : Reader Unit
  | [] => some ((), [])
  | _ :: _ => none

/-! ## Choice and repetition -/

/-- A reader that takes nothing instead of failing. -/
def optional (r : Reader α) : Reader (Option α) :=
  fun cs =>
    match r cs with
    | some (a, rest) => some (some a, rest)
    | none => some (none, cs)

/-- What a reader takes from the text, as text and as what it makes of it. -/
def written (r : Reader α) : Reader (String × α) :=
  fun cs =>
    match r cs with
    | some (a, rest) => some ((String.ofList (cs.take (cs.length - rest.length)), a), rest)
    | none => none

/-- Apply a reader as often as it succeeds and takes something. -/
def collect (r : Reader α) (cs : List Char) : List α × List Char :=
  match r cs with
  | none => ([], cs)
  | some (a, rest) =>
      if rest.length < cs.length then (a :: (collect r rest).1, (collect r rest).2)
      else ([], cs)
termination_by cs.length

/-- Apply a reader as often as it succeeds and takes something, as a reader. -/
def many (r : Reader α) : Reader (List α) :=
  fun cs => some (collect r cs)

/-! ## Blank space -/

/-- Spaces and tabs. -/
def blanks : Reader Unit := do
  let _ ← run fun c => c == ' ' || c == '\t'

/-- The end of a line. -/
def newline : Reader Unit :=
  exactly "\n" <|> exactly "\r\n"

/-- A character that may stand in a text as it is: not a control character, except for tabs. -/
def isPrintable (c : Char) : Bool :=
  c == '\t' || (' ' ≤ c && c.toNat ≠ 0x7F)

/-- A comment, up to the end of its line. -/
def comment : Reader Unit := do
  exactly "#"
  let _ ← run isPrintable

/-- Blank space that may hold comments and line ends. -/
def gap : Reader Unit := do
  blanks
  let _ ← many (do
    let _ ← optional comment
    newline
    blanks)

/-- Items divided by commas, with gaps around them; a comma may follow the last one. -/
def items (item : Reader α) (cs : List Char) : Option (List α × List Char) := do
  let ((), cs₁) ← gap cs
  let (some a, cs₂) ← optional item cs₁ | return ([], cs₁)
  let ((), cs₃) ← gap cs₂
  let (some (), cs₄) ← optional (exactly ",") cs₃ | return ([a], cs₃)
  if cs₄.length < cs.length then
    let (as, rest) ← items item cs₄
    return (a :: as, rest)
  else
    none
termination_by cs.length

end Reader

end LevelSchema.Toml
