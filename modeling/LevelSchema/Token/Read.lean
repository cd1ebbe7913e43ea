import LevelSchema.Name.Case
import LevelSchema.Text.Blank
import LevelSchema.Token.Basic

/-!
# Reading one token

`readToken` takes one token from the front of a text, or finds out why there is none.  Either way it
splits the text: what it took, and what is left (`readToken_splits`).  A token always takes at least
one character, which is what makes reading a whole text end (`length_rest_of_token`).

**Words** are longest runs of identifier characters, so a word that merely begins with a keyword is
a name.  **Integers** are longest runs of digits that no other identifier character follows.
**Strings** end on the line they start on, with four escapes.  **Spaces** inside a line are any
blank characters but a line feed; a carriage return belongs to the line break only when the line
feed follows at once.
-/

namespace LevelSchema

/-- Why no token could be read. -/
inductive ReadFault
  | unterminatedString
  | invalidEscape
  | integerOutOfRange
  | unexpectedCharacter
deriving DecidableEq

/-- What reading at the front of a text gives: a token and the characters it is made of, or a fault
and the characters looked at before it was noticed; and in both cases the text that is left. -/
inductive Reading
  | token (token : Token) (taken rest : List Char)
  | fault (fault : ReadFault) (taken rest : List Char)

namespace Reading

/-- The characters looked at. -/
def taken : Reading → List Char
  | .token _ taken _ => taken
  | .fault _ taken _ => taken

/-- The characters left. -/
def rest : Reading → List Char
  | .token _ _ rest => rest
  | .fault _ _ rest => rest

end Reading

/-! ## Strings -/

/-- The character that an escape letter stands for. -/
def unescape? : Char → Option Char
  | 'n' => some '\n'
  | 't' => some '\t'
  | '\\' => some '\\'
  | '"' => some '"'
  | _ => none

/-- How the inside of a string came to an end. -/
inductive StringEnd
  | closed
  | unterminated
  | invalidEscape
deriving DecidableEq

/-- The inside of a string: its decoded content, the characters read (the closing quote, or the
backslash of a bad escape, included), and the text that is left. -/
structure StringBody where
  content : List Char
  taken : List Char
  rest : List Char
  ending : StringEnd

/-- Put a decoded character and its spelling in front. -/
def StringBody.cons (c : Char) (spelling : List Char) (b : StringBody) : StringBody :=
  { b with content := c :: b.content, taken := spelling ++ b.taken }

/-- Read the inside of a string, after its opening quote. -/
def readStringBody : List Char → StringBody
  | [] => ⟨[], [], [], .unterminated⟩
  | '"' :: cs => ⟨[], ['"'], cs, .closed⟩
  | ['\\'] => ⟨[], ['\\'], [], .invalidEscape⟩
  | '\\' :: e :: cs =>
      match unescape? e with
      | some c => (readStringBody cs).cons c ['\\', e]
      | none => ⟨[], ['\\'], e :: cs, .invalidEscape⟩
  | c :: cs =>
      if c == '\n' || c == '\r' then ⟨[], [], c :: cs, .unterminated⟩
      else (readStringBody cs).cons c [c]

/-- A string token, given the text after the opening quote. -/
def readString (cs : List Char) : Reading :=
  let body := readStringBody cs
  match body.ending with
  | .closed => .token (.string (String.ofList body.content)) ('"' :: body.taken) body.rest
  | .unterminated => .fault .unterminatedString ('"' :: body.taken) body.rest
  | .invalidEscape => .fault .invalidEscape ('"' :: body.taken) body.rest

/-! ## Numbers and words -/

/-- The value of a run of decimal digits. -/
def decimalValue (cs : List Char) : Nat :=
  cs.foldl (fun n c => 10 * n + (c.toNat - '0'.toNat)) 0

/-- An integer token whose first digit is `c`. -/
def readInteger (c : Char) (cs : List Char) : Reading :=
  if (cs.dropWhile Char.isDigit).head?.any Name.isPart then
    .fault .unexpectedCharacter [] (c :: cs)
  else if decimalValue (c :: cs.takeWhile Char.isDigit) < UInt64.size then
    .token (.integer (UInt64.ofNat (decimalValue (c :: cs.takeWhile Char.isDigit))))
      (c :: cs.takeWhile Char.isDigit) (cs.dropWhile Char.isDigit)
  else
    .fault .integerOutOfRange (c :: cs.takeWhile Char.isDigit) (cs.dropWhile Char.isDigit)

/-- The token of a word. -/
def wordToken (word : String) : Token :=
  match Keyword.ofSpelling? word with
  | some k => .keyword k
  | none => .name word

/-- A word token whose first character is `c`. -/
def readWord (c : Char) (cs : List Char) : Reading :=
  .token (wordToken (String.ofList (c :: cs.takeWhile Name.isPart)))
    (c :: cs.takeWhile Name.isPart) (cs.dropWhile Name.isPart)

/-! ## Separators -/

/-- A blank character inside a line. -/
def isSpace (c : Char) : Bool :=
  Text.isBlank c && c != '\n'

/-- A run of characters without the carriage returns at its end. -/
def dropReturns (cs : List Char) : List Char :=
  (cs.reverse.dropWhile (· == '\r')).reverse

/-- A comment token, given the text after the two slashes: everything up to the end of the line.
Carriage returns at that end are not part of the text of the comment. -/
def readComment (cs : List Char) : Reading :=
  .token (.comment (String.ofList (dropReturns (cs.takeWhile (· != '\n')))))
    ('/' :: '/' :: cs.takeWhile (· != '\n')) (cs.dropWhile (· != '\n'))

/-- A space token whose first character is `c`, or the fault that no token starts with `c`. -/
def readSpace (c : Char) (cs : List Char) : Reading :=
  if isSpace c then .token .space (c :: cs.takeWhile isSpace) (cs.dropWhile isSpace)
  else .fault .unexpectedCharacter [] (c :: cs)

/-- Read one token that is not the indent of a line. -/
def readToken : List Char → Reading
  | [] => .fault .unexpectedCharacter [] []
  | '/' :: '/' :: cs => readComment cs
  | '"' :: cs => readString cs
  | '=' :: cs => .token .equals ['='] cs
  | '[' :: cs => .token .leftBracket ['['] cs
  | ']' :: cs => .token .rightBracket [']'] cs
  | '\r' :: '\n' :: cs => .token .newline ['\r', '\n'] cs
  | '\n' :: cs => .token .newline ['\n'] cs
  | c :: cs =>
      if Name.isStart c then readWord c cs
      else if c.isDigit then readInteger c cs
      else readSpace c cs

/-! ## Nothing is lost

Every reading splits the text in two, and a token takes a part that is not empty. -/

theorem readStringBody_append (cs : List Char) :
    (readStringBody cs).taken ++ (readStringBody cs).rest = cs := by
  fun_induction readStringBody cs with
  | case4 e cs c h ih => simp [StringBody.cons, ih]
  | case7 c cs _ _ _ _ ih => simp [StringBody.cons, ih]
  | _ => rfl

/-- `r` splits `cs` in two, and takes something whenever it is a token. -/
structure Reading.Splits (r : Reading) (cs : List Char) : Prop where
  append : r.taken ++ r.rest = cs
  taken_ne_nil : ∀ t taken rest, r = .token t taken rest → taken ≠ []

theorem Reading.Splits.token {t : Token} {taken rest cs : List Char} (h : taken ++ rest = cs)
    (hne : taken ≠ []) : (Reading.token t taken rest).Splits cs :=
  ⟨h, fun _ _ _ e => by cases e; exact hne⟩

theorem Reading.Splits.fault {f : ReadFault} {taken rest cs : List Char} (h : taken ++ rest = cs) :
    (Reading.fault f taken rest).Splits cs :=
  ⟨h, fun _ _ _ e => nomatch e⟩

theorem readString_splits (cs : List Char) : (readString cs).Splits ('"' :: cs) := by
  have h : '"' :: (readStringBody cs).taken ++ (readStringBody cs).rest = '"' :: cs :=
    congrArg ('"' :: ·) (readStringBody_append cs)
  unfold readString
  cases he : (readStringBody cs).ending
  · simpa only [he] using .token h (List.cons_ne_nil _ _)
  · simpa only [he] using .fault h
  · simpa only [he] using .fault h

theorem readInteger_splits (c : Char) (cs : List Char) : (readInteger c cs).Splits (c :: cs) := by
  have h : c :: cs.takeWhile Char.isDigit ++ cs.dropWhile Char.isDigit = c :: cs := by simp
  unfold readInteger
  split
  · exact .fault rfl
  · split
    · exact .token h (List.cons_ne_nil _ _)
    · exact .fault h

theorem readWord_splits (c : Char) (cs : List Char) : (readWord c cs).Splits (c :: cs) :=
  .token (by simp) (List.cons_ne_nil _ _)

theorem readComment_splits (cs : List Char) : (readComment cs).Splits ('/' :: '/' :: cs) :=
  .token (by simp) (List.cons_ne_nil _ _)

theorem readSpace_splits (c : Char) (cs : List Char) : (readSpace c cs).Splits (c :: cs) := by
  unfold readSpace
  split
  · exact .token (by simp) (List.cons_ne_nil _ _)
  · exact .fault rfl

/-- **Reading a token splits the text.**  What is taken and what is left make up the text again, and
a token is never empty. -/
theorem readToken_splits (cs : List Char) : (readToken cs).Splits cs := by
  fun_cases readToken cs with
  | case1 => exact .fault rfl
  | case2 => exact readComment_splits _
  | case3 => exact readString_splits _
  | case9 => exact readWord_splits _ _
  | case10 => exact readInteger_splits _ _
  | case11 => exact readSpace_splits _ _
  | _ => exact .token rfl (List.cons_ne_nil _ _)

/-- What is left after a token is shorter than the text. -/
theorem length_rest_of_token {cs : List Char} {t : Token} {taken rest : List Char}
    (h : readToken cs = .token t taken rest) : rest.length < cs.length := by
  have hs := readToken_splits cs
  have hlen := congrArg List.length hs.append
  have hpos := List.length_pos_iff.2 (hs.taken_ne_nil _ _ _ h)
  simp only [h, Reading.taken, Reading.rest, List.length_append] at hlen
  omega

/-- What is left after a fault, less one character, is shorter than the text. -/
theorem length_tail_rest_of_fault {cs : List Char} {f : ReadFault} {taken rest : List Char}
    (hne : cs ≠ []) (h : readToken cs = .fault f taken rest) :
    rest.tail.length < cs.length := by
  have hlen := congrArg List.length (readToken_splits cs).append
  have hpos := List.length_pos_iff.2 hne
  simp only [h, Reading.taken, Reading.rest, List.length_append] at hlen
  simp only [List.length_tail]
  omega

end LevelSchema
