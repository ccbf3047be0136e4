import Synopsis.Json.Number
import Synopsis.Json.Quoted

/-!
# Scalars of an expected type

Each reader asks for one type. A scalar of another type is read to its end before it is refused; of
a list or an object not even the bracket is read.
-/

namespace Synopsis.Json

/-- Read the letters of a word one by one. -/
def word : List Char → Reader Unit
  | [] => return
  | expected :: rest => do
    match ← peek with
    | none => failHere .endInValue
    | some c =>
      if c = expected then do
        skip
        word rest
      else failAfter .expectedIdent 1

/-- Refuse the value that starts with a character because another type was expected. -/
def mismatch {α : Type} (start : Char) (expected : String) : Reader α := do
  let found ← match start with
    | 'n' => do word "null".toList; pure Found.null
    | 't' => do word "true".toList; pure (Found.boolean true)
    | 'f' => do word "false".toList; pure (Found.boolean false)
    | '"' => do pure (Found.string (← quoted))
    | '[' => pure Found.sequence
    | '\x7b' => pure Found.map
    | c =>
      if c = '-' ∨ c.isDigit then do pure (← number).found
      else failAtNext .expectedValue
  failHere (.shape (.invalidType found expected))

/-- Read the blanks before a value and hand its first character on. -/
def value {α : Type} (read : Char → Reader α) : Reader α := do
  match ← nextToken with
  | none => failAtNext .endInValue
  | some c => read c

/-- Read a string. -/
def string : Reader String := value fun c =>
  if c = '"' then quoted else mismatch c "a string"

/-- Read an integer of 32 bits without sign. -/
def word32 : Reader Nat := value fun c =>
  if c = '-' ∨ c.isDigit then do
    match ← number with
    | .integer value =>
      if 0 ≤ value ∧ value < Int.pow 2 32 then return value.toNat
      else failHere (.shape (.invalidValue (.integer value) "u32"))
    | .float value => failHere (.shape (.invalidType (.float (floatText value)) "u32"))
  else mismatch c "u32"

/-- Read a truth value. -/
def truth : Reader Bool := value fun c =>
  match c with
  | 't' => do word "true".toList; return true
  | 'f' => do word "false".toList; return false
  | _ => mismatch c "a boolean"

end Synopsis.Json
