/-!
# Places in a source text

Everything the compiler reads comes from one text, and everything it reports points back into it.
A place is a **byte range** of the text in UTF-8: `Span` holds its two ends, and `Located` pairs a
value with the span it was read from.

Ends are byte offsets and not character counts, so a span can be cut out of the encoded text
without decoding what comes before it.  `byteLength` is the bridge between the two: the lexer
works on characters, and advances its offset by the bytes of what it took.
-/

namespace LevelSchema

/-! ## Byte ranges -/

/-- The half-open byte range from `start` up to `stop`.

Nothing forces `start ≤ stop`: a range given the wrong way round is kept as it is, and is empty. -/
structure Span where
  start : Nat
  stop : Nat
deriving DecidableEq

namespace Span

/-- Number of bytes covered; none when the ends are the wrong way round. -/
def length (s : Span) : Nat :=
  s.stop - s.start

/-- Whether no byte is covered. -/
def isEmpty (s : Span) : Bool :=
  s.length == 0

/-- The smallest range that covers both. -/
def union (a b : Span) : Span :=
  ⟨min a.start b.start, max a.stop b.stop⟩

/-- `a` covers `b`: every byte of `b` lies in `a`. -/
def Covers (a b : Span) : Prop :=
  a.start ≤ b.start ∧ b.stop ≤ a.stop

/-- The range at the very beginning of a text, used where nothing can be pointed at. -/
def atStart : Span :=
  ⟨0, 0⟩

end Span

/-! ## Located values -/

/-- A value together with the range it was read from. -/
structure Located (α : Type) where
  value : α
  span : Span
deriving DecidableEq

namespace Located

variable {α β : Type}

/-- Change the value and keep the place. -/
def map (f : α → β) (x : Located α) : Located β :=
  ⟨f x.value, x.span⟩

end Located

/-! ## Characters and bytes -/

/-- Bytes a run of characters takes in UTF-8. -/
def byteLength : List Char → Nat
  | [] => 0
  | c :: cs => c.utf8Size + byteLength cs

end LevelSchema
