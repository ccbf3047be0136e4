/-!
# Shortest decimals

The decimal with the fewest digits that reads back as a given binary floating point number. A number
is taken as an exact fraction together with the interval of reals that round to it. For one digit,
two digits and so on, the two neighbours of the number on that decimal grid are tested; the first
grid with a hit wins, and of two hits the nearer.
-/

namespace Synopsis

/-- The decimal `digits * 10 ^ exponent`. -/
structure Decimal where
  digits : Nat
  exponent : Int
deriving DecidableEq, Repr

namespace Decimal

/-- Which of two equally near decimals is taken. -/
inductive Tie where
  | toEven
  | up
deriving DecidableEq, Repr

/-- A positive binary number with the ends of the interval that rounds to it, as numerators over one
denominator. -/
structure Rounding where
  low : Nat
  value : Nat
  high : Nat
  denominator : Nat
  /-- Whether the ends of the interval round to the number too. -/
  closed : Bool

/-- The interval of reals that round to `mantissa * 2 ^ exponent`. Below a power of two the next
number is half as far away as above it. -/
def Rounding.ofBinary (mantissa : Nat) (exponent : Int) (power : Bool) : Rounding :=
  let scale := Nat.pow 2 (exponent - 2).toNat
  { low := (4 * mantissa - if power then 1 else 2) * scale
    value := 4 * mantissa * scale
    high := (4 * mantissa + 2) * scale
    denominator := Nat.pow 2 (2 - exponent).toNat
    closed := mantissa % 2 = 0 }

/-- The least number of decimal places, starting from `places`, at which a fraction reaches one. -/
def placesToOne (numerator denominator : Nat) : Nat → Nat → Nat
  | 0, places => places
  | fuel + 1, places =>
    if denominator ≤ numerator * Nat.pow 10 places then places
    else placesToOne numerator denominator fuel (places + 1)

/-- The exponent of the leading decimal digit of a positive fraction. A double has its leading digit
within the first 324 places. -/
def leadingExponent (numerator denominator : Nat) : Int :=
  if denominator ≤ numerator then ((Nat.toDigits 10 (numerator / denominator)).length : Int) - 1
  else -(placesToOne numerator denominator 324 1 : Int)

/-- Whether `digits * 10 ^ exponent` lies in the interval. -/
def Rounding.contains (rounding : Rounding) (digits : Nat) (exponent : Int) : Bool :=
  let point := digits * Nat.pow 10 exponent.toNat * rounding.denominator
  let low := rounding.low * Nat.pow 10 (-exponent).toNat
  let high := rounding.high * Nat.pow 10 (-exponent).toNat
  if rounding.closed then low ≤ point ∧ point ≤ high else low < point ∧ point < high

/-- The multiple of `10 ^ exponent` nearest to the number among its two neighbours that lie in the
interval. -/
def Rounding.onGrid? (tie : Tie) (rounding : Rounding) (exponent : Int) : Option Nat :=
  let numerator := rounding.value * Nat.pow 10 (-exponent).toNat
  let denominator := rounding.denominator * Nat.pow 10 exponent.toNat
  let below := numerator / denominator
  let remainder := numerator % denominator
  match rounding.contains below exponent, rounding.contains (below + 1) exponent with
  | false, false => none
  | true, false => some below
  | false, true => some (below + 1)
  | true, true =>
    if 2 * remainder < denominator then some below
    else if denominator < 2 * remainder then some (below + 1)
    else match tie with
      | .up => some (below + 1)
      | .toEven => some (if below % 2 = 0 then below else below + 1)

/-- Search the grids from `exponent` downwards. -/
def Rounding.search (tie : Tie) (rounding : Rounding) : Nat → Int → Decimal
  | 0, exponent => ⟨0, exponent⟩
  | fuel + 1, exponent =>
    match rounding.onGrid? tie exponent with
    | some digits => ⟨digits, exponent⟩
    | none => rounding.search tie fuel (exponent - 1)

/-- A decimal without trailing zeros of the same value. -/
def trimmed : Nat → Decimal → Decimal
  | 0, decimal => decimal
  | fuel + 1, decimal =>
    if decimal.digits ≠ 0 ∧ decimal.digits % 10 = 0 then
      trimmed fuel ⟨decimal.digits / 10, decimal.exponent + 1⟩
    else decimal

/-- The decimal with the fewest digits in an interval. Seventeen digits tell all doubles apart. -/
def Rounding.shortest (tie : Tie) (rounding : Rounding) : Decimal :=
  trimmed 18
    (rounding.search tie 18 (leadingExponent rounding.value rounding.denominator))

/-- The shortest decimal that reads back as the magnitude of a finite double. -/
def ofFloat (tie : Tie) (x : Float) : Decimal :=
  let bits := x.toBits.toNat
  let biased : Nat := bits / Nat.pow 2 52 % Nat.pow 2 11
  let fraction : Nat := bits % Nat.pow 2 52
  if biased = 0 then
    if fraction = 0 then ⟨0, 0⟩
    else (Rounding.ofBinary fraction (-1074) false).shortest tie
  else
    let power := decide (fraction = 0 ∧ 1 < biased)
    (Rounding.ofBinary (Nat.pow 2 52 + fraction) ((biased : Int) - 1075) power).shortest tie

/-- Whether a double has its sign bit set. -/
def isNegative (x : Float) : Bool := Nat.pow 2 63 ≤ x.toBits.toNat

/-- The exponent of the leading digit of a decimal. -/
def magnitude (decimal : Decimal) : Int :=
  ((Nat.toDigits 10 decimal.digits).length : Int) - 1 + decimal.exponent

/-- A decimal in positional notation with at least one digit on either side of the point. -/
def positional (decimal : Decimal) : String :=
  let digits := Nat.toDigits 10 decimal.digits
  if 0 ≤ decimal.exponent then
    String.ofList (digits ++ List.replicate decimal.exponent.toNat '0') ++ ".0"
  else
    let places := (-decimal.exponent).toNat
    let padded := List.replicate (places + 1 - digits.length) '0' ++ digits
    let whole := padded.length - places
    String.ofList (padded.take whole) ++ "." ++ String.ofList (padded.drop whole)

/-- A decimal as one digit, the other digits behind a point if there are any, and a signed
exponent. -/
def scientific (decimal : Decimal) : String :=
  let mantissa := match Nat.toDigits 10 decimal.digits with
    | [] => ""
    | [digit] => String.singleton digit
    | digit :: rest => String.singleton digit ++ "." ++ String.ofList rest
  let exponent := decimal.magnitude
  let sign := if exponent < 0 then "-" else "+"
  s!"{mantissa}e{sign}{exponent.natAbs}"

end Decimal

end Synopsis
