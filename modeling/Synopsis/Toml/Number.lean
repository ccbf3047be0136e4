import Synopsis.Text.Numeral
import Synopsis.Toml.Item
import Synopsis.Toml.Reader

/-!
# TOML numbers, dates and times

Numbers and dates are read as the longest run of characters that can stand in one, and the run is
then taken apart as a whole. An underscore may stand between two digits. Integers fit 64 bits, and
floating point numbers are rounded to the nearest double.
-/

namespace Synopsis.Toml

/-- Whether every underscore of a text stands between two digits, and all else is digits. -/
def isGrouped (isDigit : Char → Bool) : List Char → Bool
  | [] => false
  | [c] => isDigit c
  | c :: '_' :: rest => isDigit c && isGrouped isDigit rest
  | c :: rest => isDigit c && isGrouped isDigit rest

/-- A text without its underscores. -/
def ungrouped (text : List Char) : List Char := text.filter (· ≠ '_')

/-- Whether a text is a grouped decimal numeral without needless zeros in front. -/
def isWhole : List Char → Bool
  | ['0'] => true
  | '0' :: _ => false
  | text => isGrouped Char.isDigit text

/-- A text without its sign, and whether that is a minus. -/
def unsigned : List Char → Bool × List Char
  | '-' :: rest => (true, rest)
  | '+' :: rest => (false, rest)
  | text => (false, text)

/-- The value of decimal digits. -/
def decimalValue (digits : List Char) : Nat :=
  digits.foldl (fun value c => value * 10 + (c.toNat - '0'.toNat)) 0

/-- The integer that a grouped numeral in a radix denotes. -/
def radixInteger? (radix : Nat) (digits : List Char) : Option Int := do
  guard (isGrouped (fun c => (Text.digitValue? radix c).isSome) digits)
  match Text.readDigits radix (Nat.pow 2 63) 0 (ungrouped digits) with
  | .ok value => some value
  | .error _ => none

/-- The integer that a text denotes. -/
def integer? : List Char → Option Int
  | '0' :: 'x' :: digits => radixInteger? 16 digits
  | '0' :: 'o' :: digits => radixInteger? 8 digits
  | '0' :: 'b' :: digits => radixInteger? 2 digits
  | text => do
    let (negative, digits) := unsigned text
    guard (isWhole digits)
    let magnitude : Int := decimalValue (ungrouped digits)
    let value := if negative then -magnitude else magnitude
    guard (-Int.pow 2 63 ≤ value ∧ value < Int.pow 2 63)
    return value

/-- The double nearest to `mantissa * 10 ^ exponent`, where far too large or small exponents are
settled by the number of digits. -/
def nearest (mantissa : Nat) (exponent : Int) : Float :=
  let magnitude := exponent + (Nat.toDigits 10 mantissa).length
  if mantissa = 0 then 0.0
  else if 400 < magnitude then 1.0 / 0.0
  else if magnitude < -400 then 0.0
  else Float.ofScientific mantissa (exponent < 0) exponent.natAbs

/-- The parts of a numeral before and after the mark of its exponent. -/
def splitExponent (text : List Char) : List Char × Option (List Char) :=
  let isMark (c : Char) : Bool := c = 'e' || c = 'E'
  let before := text.takeWhile (!isMark ·)
  match text.drop before.length with
  | [] => (before, none)
  | _ :: after => (before, some after)

/-- The magnitude of the floating point number that a text without sign denotes. One without a point
and without an exponent is none. -/
def magnitude? (text : List Char) : Option Float := do
  let (before, exponentText) := splitExponent text
  let whole := before.takeWhile (· ≠ '.')
  let fraction := before.drop (whole.length + 1)
  guard (isWhole whole)
  guard (before.length = whole.length ∨ isGrouped Char.isDigit fraction)
  guard (before.length ≠ whole.length ∨ exponentText.isSome)
  let exponent : Int ← match exponentText with
    | none => pure 0
    | some written => do
      let (negative, digits) := unsigned written
      guard (isGrouped Char.isDigit digits)
      let value : Int := decimalValue (ungrouped digits)
      pure (if negative then -value else value)
  let places := ungrouped fraction
  return nearest (decimalValue (ungrouped whole ++ places)) (exponent - places.length)

/-- The floating point number that a text denotes. One that rounds to infinity is none, unless it is
negative. -/
def float? (text : List Char) : Option Float := do
  let (negative, digits) := unsigned text
  let magnitude ← match String.ofList digits with
    | "inf" => pure (1.0 / 0.0)
    | "nan" => pure (0.0 / 0.0)
    | _ => do
      let value ← magnitude? digits
      guard (negative ∨ ¬ value.isInf)
      pure value
  return if negative then -magnitude else magnitude

/-- The number of two digits, if it is at most `most`. -/
def twoDigits? (most : Nat) (a b : Char) : Option Nat := do
  guard (a.isDigit ∧ b.isDigit)
  let value := decimalValue [a, b]
  guard (value ≤ most)
  return value

/-- The number of days of a month. -/
def daysIn (year month : Nat) : Nat :=
  if month = 2 then
    if year % 4 = 0 ∧ (year % 100 ≠ 0 ∨ year % 400 = 0) then 29 else 28
  else if month = 4 ∨ month = 6 ∨ month = 9 ∨ month = 11 then 30
  else 31

/-- What follows a full date at the front of a text. -/
def afterDate? : List Char → Option (List Char)
  | y₁ :: y₂ :: y₃ :: y₄ :: '-' :: m₁ :: m₂ :: '-' :: d₁ :: d₂ :: rest => do
    let year := [y₁, y₂, y₃, y₄]
    guard (year.all Char.isDigit)
    let month ← twoDigits? 12 m₁ m₂
    let day ← twoDigits? 31 d₁ d₂
    guard (1 ≤ month ∧ 1 ≤ day ∧ day ≤ daysIn (decimalValue year) month)
    return rest
  | _ => none

/-- What follows a time at the front of a text. -/
def afterTime? : List Char → Option (List Char)
  | h₁ :: h₂ :: ':' :: m₁ :: m₂ :: ':' :: s₁ :: s₂ :: rest => do
    let _ ← twoDigits? 23 h₁ h₂
    let _ ← twoDigits? 59 m₁ m₂
    let _ ← twoDigits? 60 s₁ s₂
    match rest with
    | '.' :: fraction =>
      guard ((fraction.head?.map Char.isDigit).getD false)
      return fraction.dropWhile Char.isDigit
    | _ => return rest
  | _ => none

/-- Whether a text is empty or the offset of a time zone. -/
def isOffset : List Char → Bool
  | [] | ['Z'] | ['z'] => true
  | [sign, h₁, h₂, ':', m₁, m₂] =>
    (sign = '+' || sign = '-') && (twoDigits? 23 h₁ h₂).isSome && (twoDigits? 59 m₁ m₂).isSome
  | _ => false

/-- Whether a text is a date, a time, or a date with a time and perhaps an offset. -/
def isDatetime (text : List Char) : Bool :=
  match afterDate? text with
  | some [] => true
  | some (mark :: rest) =>
    (mark = 'T' || mark = 't' || mark = ' ') && ((afterTime? rest).map isOffset).getD false
  | none => afterTime? text = some []

/-- Whether a character can stand in a number or date. -/
def inNumber (c : Char) : Bool :=
  c.isAlphanum || c = '_' || c = '+' || c = '-' || c = '.' || c = ':'

/-- Read the characters of a number or date. A date may be followed by a space and a time. -/
def numberText : Reader (List Char) := do
  let first ← takeWhile inNumber
  match (← get).rest with
  | ' ' :: c :: _ =>
    if afterDate? first = some [] ∧ c.isDigit then do
      skip
      return first ++ ' ' :: (← takeWhile inNumber)
    else return first
  | _ => return first

/-- Read a number, date or time. -/
def number : Reader Scalar := do
  let text ← numberText
  if isDatetime text then return .datetime (String.ofList text)
  else match float? text, integer? text with
    | some value, _ => return .float value
    | none, some value => return .integer value
    | none, none => failure

end Synopsis.Toml
