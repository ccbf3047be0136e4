import Synopsis.Decimal.Shortest
import Synopsis.Json.Reader

/-!
# JSON numbers

A number without point and exponent that fits 64 bits is an integer; every other number is floating
point. Its digits are gathered into one 64-bit significand for as long as they fit, the rest of the
whole digits count towards the exponent only, and the value is the significand scaled by a power of
ten in floating point arithmetic.
-/

namespace Synopsis.Json

/-- A number as it was read. -/
inductive Number where
  | integer (value : Int)
  | float (value : Float)

/-- Floating point numbers are written in positional notation from 0.00001 to below 10 ^ 16 and with
an exponent otherwise. -/
def floatText (x : Float) : String :=
  let decimal := Decimal.ofFloat .toEven x
  let sign := if Decimal.isNegative x then "-" else ""
  if decimal.digits = 0 ∨ (-5 ≤ decimal.magnitude ∧ decimal.magnitude ≤ 15) then
    sign ++ decimal.positional
  else sign ++ decimal.scientific

/-- A number as messages name it. -/
def Number.found : Number → Found
  | .integer value => .integer value
  | .float value => .float (floatText value)

/-- The digits that come next. -/
def digits : Reader (List Nat) := do
  let cursor ← get
  let taken := cursor.rest.takeWhile Char.isDigit
  set (⟨cursor.rest.drop taken.length, cursor.offset + taken.length⟩ : Text.Cursor)
  return taken.map fun c => c.toNat - '0'.toNat

/-- Extend a significand by digits for as long as it fits 64 bits, and count those that are left. -/
def absorb : Nat → List Nat → Nat × Nat
  | significand, [] => (significand, 0)
  | significand, digit :: rest =>
    if significand * 10 + digit < Nat.pow 2 64 then absorb (significand * 10 + digit) rest
    else (significand, rest.length + 1)

/-- The double nearest to a power of ten. -/
def powerOfTen (n : Nat) : Float := Float.ofScientific 1 false n

/-- The double `significand * 10 ^ exponent`, by one multiplication or division, or by a second
division where the power of ten is no double. -/
def scaled? (significand : Nat) (exponent : Int) : Option Float :=
  let f := significand.toUInt64.toFloat
  let largest := powerOfTen 308
  if 0 ≤ exponent then
    if exponent ≤ 308 then
      let product := f * powerOfTen exponent.toNat
      if product.isInf then none else some product
    else if significand = 0 then some f else none
  else if -308 ≤ exponent then some (f / powerOfTen (-exponent).toNat)
  else if -616 ≤ exponent then some (f / largest / powerOfTen (-exponent - 308).toNat)
  else some (f / largest / largest)

/-- A floating point number with a sign. -/
def signed (negative : Bool) (magnitude : Float) : Number :=
  .float (if negative then -magnitude else magnitude)

/-- The number with a significand and an exponent. -/
def scaledNumber (negative : Bool) (significand : Nat) (exponent : Int) : Reader Number :=
  match scaled? significand exponent with
  | some magnitude => return signed negative magnitude
  | none => failHere .numberOutOfRange

/-- The value of the digits of an exponent, and those left over once it no longer fits 32 bits. -/
def exponentValue : Nat → List Nat → Except (List Nat) Nat
  | value, [] => .ok value
  | value, digit :: rest =>
    if value * 10 + digit < Nat.pow 2 31 then exponentValue (value * 10 + digit) rest
    else .error rest

/-- Read the rest of a number from the mark of its exponent on. -/
def exponentPart (negative : Bool) (significand : Nat) (start : Int) : Reader Number := do
  skip
  let descending ← match ← peek with
    | some '+' => skip; pure false
    | some '-' => skip; pure true
    | _ => pure false
  match ← peek with
  | none => failHere .endInValue
  | some c =>
    if ¬ c.isDigit then failAfter .invalidNumber 1
    else
      let cursor ← get
      let read ← digits
      match exponentValue 0 read with
      | .ok value =>
        scaledNumber negative significand (if descending then start - value else start + value)
      | .error rest =>
        if significand ≠ 0 ∧ ¬ descending then do
          set cursor
          failAfter .numberOutOfRange (read.length - rest.length)
        else return signed negative 0.0

/-- Read the rest of a number from its point on. -/
def fractionPart (negative : Bool) (significand : Nat) (start : Int) : Reader Number := do
  skip
  let read ← digits
  if read.isEmpty then
    match ← peek with
    | some _ => failAtNext .invalidNumber
    | none => failAtNext .endInValue
  else
    let (significand, ignored) := absorb significand read
    let exponent := start - (read.length - ignored : Nat)
    match ← peek with
    | some 'e' | some 'E' => exponentPart negative significand exponent
    | _ => scaledNumber negative significand exponent

/-- Read the rest of a number after its whole digits. -/
def afterWhole (negative : Bool) (whole : List Nat) : Reader Number := do
  let (significand, exponent) := absorb 0 whole
  match ← peek with
  | some '.' => fractionPart negative significand exponent
  | some 'e' | some 'E' => exponentPart negative significand exponent
  | _ =>
    if exponent ≠ 0 then scaledNumber negative significand exponent
    else if ¬ negative then return .integer significand
    else if significand = 0 ∨ Nat.pow 2 63 < significand then
      return signed true significand.toUInt64.toFloat
    else return .integer (-significand)

/-- Read a number behind its sign. -/
def magnitude (negative : Bool) : Reader Number := do
  match ← peek with
  | none => failHere .endInValue
  | some '0' =>
    skip
    match ← peek with
    | some c => if c.isDigit then failAtNext .invalidNumber else afterWhole negative [0]
    | none => afterWhole negative [0]
  | some c =>
    if c.isDigit then do
      let whole ← digits
      afterWhole negative whole
    else failAfter .invalidNumber 1

/-- Read a number, the cursor standing at its sign or first digit. -/
def number : Reader Number := do
  match ← peek with
  | some '-' => skip; magnitude true
  | _ => magnitude false

end Synopsis.Json
