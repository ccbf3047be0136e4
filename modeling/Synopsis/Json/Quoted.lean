import Synopsis.Json.Reader
import Synopsis.Text.Numeral
import Synopsis.Text.Slice

/-!
# JSON strings

A string is read one character at a time up to its closing quote. An escape by code units takes four
bytes whatever they are, and two of them in a row make up one character beyond the basic plane.
-/

namespace Synopsis.Json

/-- The value of four hexadecimal digits. -/
def quadValue? (a b c d : Char) : Option Nat := do
  let a ← Text.digitValue? 16 a
  let b ← Text.digitValue? 16 b
  let c ← Text.digitValue? 16 c
  let d ← Text.digitValue? 16 d
  return ((a * 16 + b) * 16 + c) * 16 + d

/-- Read four hexadecimal digits. -/
def quad : Reader Nat := do
  let cursor ← get
  let bad : Reader Nat :=
    let remaining := Text.byteLength cursor.rest
    if remaining < 4 then failAfter .endInString remaining else failAfter .invalidEscape 4
  match cursor.rest with
  | a :: b :: c :: d :: rest =>
    match quadValue? a b c d with
    | some value =>
      set (⟨rest, cursor.offset + 4⟩ : Text.Cursor)
      return value
    | none => bad
  | _ => bad

/-- Read one character of the escape that joins two code units. -/
def joint (expected : Char) : Reader Unit := do
  match ← peek with
  | none => failHere .endInString
  | some c => if c = expected then skip else failAfter .unfinishedSurrogate 1

/-- Read the code unit, or the two code units, of an escaped character. -/
def unitEscape : Reader Char := do
  let first ← quad
  if 0xDC00 ≤ first ∧ first ≤ 0xDFFF then failHere .loneSurrogate
  else if first < 0xD800 ∨ 0xDBFF < first then return Char.ofNat first
  else
    joint '\\'
    joint 'u'
    let second ← quad
    if second < 0xDC00 ∨ 0xDFFF < second then failHere .loneSurrogate
    else return Char.ofNat (0x10000 + (first - 0xD800) * 0x400 + (second - 0xDC00))

/-- Read what follows a backslash. -/
def escape : Reader Char := do
  match ← peek with
  | none => failHere .endInString
  | some c =>
    match c with
    | '"' | '\\' | '/' => skip; return c
    | 'b' => skip; return '\x08'
    | 'f' => skip; return '\x0c'
    | 'n' => skip; return '\n'
    | 'r' => skip; return '\r'
    | 't' => skip; return '\t'
    | 'u' => skip; unitEscape
    | _ => failAfter .invalidEscape 1

/-- Read the next character of a string, or its closing quote. -/
def stringChar : Reader (Option Char) := do
  match ← peek with
  | none => failHere .endInString
  | some '"' => skip; return none
  | some '\\' => skip; return some (← escape)
  | some c =>
    if c.toNat < 0x20 then failAfter .controlCharacter 1
    else skip; return some c

/-- Read the rest of a string of at most `fuel` characters, those read so far being given in reverse
order. -/
def stringRest : Nat → List Char → Reader String
  | 0, _ => failHere .endInString
  | fuel + 1, earlier => do
    match ← stringChar with
    | none => return String.ofList earlier.reverse
    | some c => stringRest fuel (c :: earlier)

/-- Read a string, the cursor standing at its opening quote. No string has more characters than the
text that is left. -/
def quoted : Reader String := do
  skip
  stringRest ((← get).rest.length + 1) []

end Synopsis.Json
