import LevelSchema.Diagnostic.Noted
import LevelSchema.Token.Read

/-!
# Reading a whole text into tokens

`scan` reads a text from its start to its end.  A line that starts with spaces or tabs gives an
indent token first; everything else is read by `readToken`.  After a fault one more character is
skipped and reading goes on behind it, inside the line, so one pass reports every fault of the
text.  The tokens are handed on only if there was no fault.
-/

namespace LevelSchema

/-- A fault at its place. -/
structure ScanFault where
  fault : ReadFault
  span : Span
deriving DecidableEq

namespace ScanFault

/-- Place a fault, given where its token starts and where the fault was noticed.

A bad escape is marked at its backslash, the last character read; an unexpected character by the
one byte it starts with; a string or number from its start to where it went wrong. -/
def locate (fault : ReadFault) (start noticed : Nat) : ScanFault :=
  match fault with
  | .unterminatedString | .integerOutOfRange => ⟨fault, ⟨start, noticed⟩⟩
  | .invalidEscape => ⟨fault, ⟨noticed - 1, noticed⟩⟩
  | .unexpectedCharacter => ⟨fault, ⟨noticed, noticed + 1⟩⟩

/-- The code under which a fault is reported. -/
def code (f : ScanFault) : Code :=
  match f.fault with
  | .unterminatedString => .unterminatedString
  | .invalidEscape => .invalidEscape
  | .integerOutOfRange => .integerOutOfRange
  | .unexpectedCharacter => .unexpectedCharacter

/-- How to mend a fault. -/
def advice (f : ScanFault) : String :=
  match f.fault with
  | .unterminatedString => "add a closing `\"` before the end of the line"
  | .invalidEscape => "valid escapes: `\\n`, `\\t`, `\\\\`, `\\\"`"
  | .integerOutOfRange => "member values must fit in 32 bits"
  | .unexpectedCharacter => "identifiers use ASCII letters, digits and `_`"

/-- The diagnostic of a fault: the code says what is wrong, as message and as label. -/
def diagnostic (f : ScanFault) : Diagnostic :=
  (Diagnostic.error f.code.description).withCode f.code
    |>.primary f.span f.code.description
    |>.hint f.advice

end ScanFault

/-- Put a lexeme in front of those that follow. -/
def consLexeme (l : Lexeme) (x : Noted ScanFault (List Lexeme)) : Noted ScanFault (List Lexeme) :=
  ⟨l :: x.value, x.notes⟩

/-- Put a fault in front of those that follow. -/
def consFault (f : ScanFault) (x : Noted ScanFault (List Lexeme)) : Noted ScanFault (List Lexeme) :=
  ⟨x.value, f :: x.notes⟩

/-- Read a text that starts at byte `pos`, and at the start of a line if `lineStart`. -/
def scanFrom (pos : Nat) (lineStart : Bool) : List Char → Noted ScanFault (List Lexeme)
  | [] => ⟨[], []⟩
  | c :: cs =>
      if lineStart && isIndentChar c then
        let taken := c :: cs.takeWhile isIndentChar
        let next := pos + byteLength taken
        consLexeme ⟨.indent (columns taken), ⟨pos, next⟩⟩
          (scanFrom next false (cs.dropWhile isIndentChar))
      else
        match _h : readToken (c :: cs) with
        | .token t taken rest =>
            let next := pos + byteLength taken
            consLexeme ⟨t, ⟨pos, next⟩⟩ (scanFrom next (t == .newline) rest)
        | .fault f taken rest =>
            let noticed := pos + byteLength taken
            consFault (.locate f pos noticed)
              (scanFrom (noticed + byteLength (rest.take 1)) false rest.tail)
termination_by cs => cs.length
decreasing_by
  · exact Nat.lt_succ_of_le (List.dropWhile_suffix isIndentChar).length_le
  · exact length_rest_of_token _h
  · exact length_tail_rest_of_fault (List.cons_ne_nil _ _) _h

/-- Read a text into tokens, or report every fault in it. -/
def scan (source : String) : Except Rejection (List Lexeme) :=
  let read := scanFrom 0 true source.toList
  if read.notes.isEmpty then .ok read.value
  else .error ⟨read.notes.map ScanFault.diagnostic⟩

end LevelSchema
