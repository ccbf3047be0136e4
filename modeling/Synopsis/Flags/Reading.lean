import Synopsis.Flags
import Synopsis.Text.Words

/-!
# Reading flag words

A flag word is given either as a numeral, which may be hexadecimal or binary, or as a list of names
between commas, in which empty pieces do not count.
-/

namespace Synopsis.FlagTable

/-- Why a text is no flag word. -/
inductive Fault where
  | numeral (text : String) (fault : Text.NumeralFault)
  | unknownName (name table : String)
deriving DecidableEq, Repr

/-- The wording of a fault. -/
def Fault.message : Fault → String
  | .numeral text fault => s!"invalid flag value '{text}': {fault.message}"
  | .unknownName name table => s!"'{name}' is not a {table} name"

/-- The number that a trimmed text denotes as a word. -/
def readDigits : List Char → Except Text.NumeralFault Nat
  | '0' :: 'x' :: digits | '0' :: 'X' :: digits => Text.readNumeral 16 (Nat.pow 2 32) digits
  | '0' :: 'b' :: digits => Text.readNumeral 2 (Nat.pow 2 32) digits
  | digits => Text.readNumeral 10 (Nat.pow 2 32) digits

/-- The word that a numeral denotes. -/
def readValue (text : String) : Except Fault UInt32 :=
  let trimmed := Text.trim text.toList
  match readDigits trimmed with
  | .ok value => .ok (UInt32.ofNat value)
  | .error fault => .error (.numeral (String.ofList trimmed) fault)

/-- The names in a list between commas. -/
def namesIn (text : String) : List String :=
  (((Text.splitWhere (· = ',') text.toList).map Text.trim).filter (· ≠ [])).map String.ofList

/-- The word with the bits of some names, and those already in `word`. -/
def addNames (table : FlagTable) (word : UInt32) : List String → Except Fault UInt32
  | [] => .ok word
  | name :: rest =>
    match table.bit? name with
    | some bit => table.addNames (word ||| bit) rest
    | none => .error (.unknownName name table.name)

/-- The word that a list of names denotes. -/
def readNames (table : FlagTable) (text : String) : Except Fault UInt32 :=
  table.addNames 0 (namesIn text)

/-- Whether a text is read as a numeral rather than as names. -/
def isNumeric (text : String) : Bool :=
  ((Text.trimStart text.toList).head?.map Char.isDigit).getD false

end Synopsis.FlagTable
