/-!
# Whole numbers in text

Numerals in a given radix are read strictly from left to right, with one optional plus sign and any
number of leading zeros, so that of two faults the leftmost is reported. Hexadecimal numerals are
written in lower case behind `0x`.
-/

namespace Synopsis.Text

/-- What is wrong with a numeral. -/
inductive NumeralFault where
  | empty
  | invalidDigit
  | tooLarge
deriving DecidableEq, Repr

/-- The wording of a numeral's fault. -/
def NumeralFault.message : NumeralFault → String
  | .empty => "cannot parse integer from empty string"
  | .invalidDigit => "invalid digit found in string"
  | .tooLarge => "number too large to fit in target type"

/-- The value of a digit of either case, if it is one in the given radix. -/
def digitValue? (radix : Nat) (c : Char) : Option Nat :=
  let value :=
    if '0' ≤ c ∧ c ≤ '9' then some (c.toNat - '0'.toNat)
    else if 'a' ≤ c ∧ c ≤ 'z' then some (c.toNat - 'a'.toNat + 10)
    else if 'A' ≤ c ∧ c ≤ 'Z' then some (c.toNat - 'A'.toNat + 10)
    else none
  value.filter (· < radix)

/-- Extend a number by further digits, keeping it below `limit` at every step. -/
def readDigits (radix limit : Nat) : Nat → List Char → Except NumeralFault Nat
  | value, [] => .ok value
  | value, c :: rest =>
    match digitValue? radix c with
    | none => .error .invalidDigit
    | some digit =>
      let next := value * radix + digit
      if next < limit then readDigits radix limit next rest else .error .tooLarge

/-- The number below `limit` that a whole text denotes. -/
def readNumeral (radix limit : Nat) : List Char → Except NumeralFault Nat
  | [] => .error .empty
  | ['+'] => .error .invalidDigit
  | '+' :: digits => readDigits radix limit 0 digits
  | digits => readDigits radix limit 0 digits

/-- The hexadecimal digits of a number, padded with zeros to a least length. -/
def hexDigits (least : Nat) (n : Nat) : String :=
  let digits := Nat.toDigits 16 n
  String.ofList (List.replicate (least - digits.length) '0' ++ digits)

/-- A number as a hexadecimal numeral. -/
def hexNumeral (n : Nat) : String := "0x" ++ hexDigits 1 n

end Synopsis.Text
