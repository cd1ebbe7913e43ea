import LevelSchema.Settings.Value
import LevelSchema.Toml.Text

/-!
# TOML numbers, dates and times

**Digits** may be grouped by single underscores.  A whole part has no leading zero.

**Whole numbers** are decimal with an optional sign, or hexadecimal, octal or binary without one.
Those that do not fit in 128 bits are out of range.

**Fractional numbers** have a fraction, an exponent or both.  Those that would round to infinity in
double precision are out of range.

**Dates and times** have to be possible ones.  Seconds may be left out.
-/

namespace LevelSchema.Toml.Reader

open Settings (Value)

/-! ## Digits -/

/-- Whether underscores stand only between two digits. -/
def isGrouped : List Char → Bool
  | [] => false
  | '_' :: _ => false
  | _ :: '_' :: cs => isGrouped cs
  | _ :: cs => cs.isEmpty || isGrouped cs

/-- The number that a list of digits stands for. -/
def digitsValue (base : Nat) (digits : List Char) : Nat :=
  digits.foldl (fun n c => base * n + hexValue c) 0

/-- Digits, maybe grouped, without the underscores. -/
def digits (isDigit : Char → Bool) : Reader (List Char) := do
  let cs ← run fun c => isDigit c || c == '_'
  if isGrouped cs then return cs.filter (· ≠ '_') else failure

/-- Decimal digits without a leading zero. -/
def wholePart : Reader (List Char) := do
  let cs ← digits Char.isDigit
  if cs.length > 1 ∧ cs.head? = some '0' then failure else return cs

/-- Whether a minus sign stands here.  A plus sign is skipped. -/
def minusSign : Reader Bool := do
  match ← optional (char fun c => c == '+' || c == '-') with
  | some '-' => return true
  | _ => return false

/-! ## Whole numbers -/

/-- A number in the given base, after a mark. -/
def marked (mark : String) (base : Nat) (isDigit : Char → Bool) : Reader Int := do
  exactly mark
  return Int.ofNat (digitsValue base (← digits isDigit))

/-- A decimal number. -/
def decimal : Reader Int := do
  let negative ← minusSign
  let n := Int.ofNat (digitsValue 10 (← wholePart))
  return if negative then -n else n

/-- A whole number. -/
def integer : Reader Value := do
  let n ← marked "0x" 16 isHex <|> marked "0o" 8 (fun c => '0' ≤ c && c ≤ '7') <|>
    marked "0b" 2 (fun c => c == '0' || c == '1') <|> decimal
  if -Int.ofNat (Nat.pow 2 127) ≤ n ∧ n < Int.ofNat (Nat.pow 2 128) then return .integer n
  else return .outOfRange

/-! ## Fractional numbers -/

/-- Whether `mantissa · 10 ^ exponent` rounds to a finite number of double precision: it lies below
the middle between the largest one and the next power of two. -/
def isFinite (mantissa : Nat) (exponent : Int) : Bool :=
  let bound := Nat.pow 2 1024 - Nat.pow 2 970
  let size := Int.ofNat (Nat.toDigits 10 mantissa).length + exponent
  if mantissa = 0 ∨ size < 300 then true
  else if size > 400 then false
  else if 0 ≤ exponent then mantissa * Nat.pow 10 exponent.toNat < bound
  else mantissa < bound * Nat.pow 10 (-exponent).toNat

/-- The digits after a point. -/
def fraction : Reader (List Char) := do
  exactly "."
  digits Char.isDigit

/-- The exponent of a number. -/
def exponent : Reader Int := do
  let _ ← char fun c => c == 'e' || c == 'E'
  let negative ← minusSign
  let n := Int.ofNat (digitsValue 10 (← digits Char.isDigit))
  return if negative then -n else n

/-- A number with a fraction or an exponent, and whether it is in range. -/
def rational : Reader Bool := do
  let _ ← minusSign
  let whole ← wholePart
  let frac ← optional fraction
  let exp ← optional exponent
  let places := frac.getD []
  if frac.isSome || exp.isSome then
    return isFinite (digitsValue 10 (whole ++ places)) (exp.getD 0 - Int.ofNat places.length)
  else
    failure

/-- Infinity, or no number.  Both are in range. -/
def nonFinite : Reader Bool := do
  let _ ← minusSign
  exactly "inf" <|> exactly "nan"
  return true

/-- A fractional number. -/
def float : Reader Value := do
  let (text, inRange) ← written (rational <|> nonFinite)
  return if inRange then .float text else .outOfRange

/-! ## Dates and times -/

/-- A number of exactly `size` digits from `low` to `high`. -/
def field (size low high : Nat) : Reader Nat := do
  let n := digitsValue 10 (← times size Char.isDigit)
  if low ≤ n ∧ n ≤ high then return n else failure

/-- The number of days of a month. -/
def daysIn (year month : Nat) : Nat :=
  if month = 2 then
    if year % 4 = 0 ∧ (year % 100 ≠ 0 ∨ year % 400 = 0) then 29 else 28
  else if month ∈ [4, 6, 9, 11] then 30
  else 31

/-- A date. -/
def date : Reader Unit := do
  let year ← field 4 0 9999
  exactly "-"
  let month ← field 2 1 12
  exactly "-"
  let _ ← field 2 1 (daysIn year month)

/-- A time of day. -/
def time : Reader Unit := do
  let _ ← field 2 0 23
  exactly ":"
  let _ ← field 2 0 59
  let _ ← optional (do
    exactly ":"
    let _ ← field 2 0 60
    let _ ← optional (do
      exactly "."
      let _ ← char Char.isDigit
      let _ ← run Char.isDigit)
    pure ())

/-- The distance of a time zone. -/
def zone : Reader Unit := do
  (do let _ ← char fun c => c == 'Z' || c == 'z') <|> (do
    let _ ← char fun c => c == '+' || c == '-'
    let _ ← field 2 0 23
    exactly ":"
    let _ ← field 2 0 59)

/-- A date, a time of day, or both. -/
def moment : Reader Value := do
  let (text, _) ← written ((do
    date
    let _ ← optional (do
      let _ ← char fun c => c == 'T' || c == 't' || c == ' '
      time
      let _ ← optional zone)) <|> time)
  return .moment text

end LevelSchema.Toml.Reader
