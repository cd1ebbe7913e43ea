/-!
# Blank characters

The characters that Unicode calls white space, and the two trimming operations defined from them.
Schema text separates words by any of them, a description made of nothing else counts as absent,
and documentation lines lose them at the end.
-/

namespace LevelSchema.Text

/-- The ranges of the Unicode property `White_Space`, both ends included, in increasing order. -/
def blankRanges : List (Nat × Nat) :=
  [(0x0009, 0x000D), (0x0020, 0x0020), (0x0085, 0x0085), (0x00A0, 0x00A0), (0x1680, 0x1680),
   (0x2000, 0x200A), (0x2028, 0x2029), (0x202F, 0x202F), (0x205F, 0x205F), (0x3000, 0x3000)]

/-- Whether `c` has the Unicode property `White_Space`. -/
def isBlank (c : Char) : Bool :=
  blankRanges.any fun r => r.1 ≤ c.toNat && c.toNat ≤ r.2

/-- Whether a text consists of blank characters only. -/
def isBlankText (s : String) : Bool :=
  s.toList.all isBlank

/-- A run of characters without the blanks at its end. -/
def trimEnd (cs : List Char) : List Char :=
  (cs.reverse.dropWhile isBlank).reverse

/-- The lines of a text.  A line feed ends a line; what follows the last one is a line only if it
is not empty. -/
def lines : List Char → List (List Char)
  | [] => []
  | '\n' :: cs => [] :: lines cs
  | c :: cs =>
      match lines cs with
      | [] => [[c]]
      | l :: ls => (c :: l) :: ls

end LevelSchema.Text
