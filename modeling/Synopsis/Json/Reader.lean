import Synopsis.Shape
import Synopsis.Text.Cursor

/-!
# Reading JSON from left to right

Reading stops at the first fault. A fault is placed either after the bytes read so far or one byte
further, when it was found by looking at a byte that is not yet read.
-/

namespace Synopsis.Json

/-- What is wrong with a JSON text. -/
inductive Fault where
  | endInValue
  | endInObject
  | endInList
  | endInString
  | expectedValue
  | expectedIdent
  | expectedColon
  | expectedMember
  | expectedElement
  | keyNotString
  | trailingComma
  | trailingCharacters
  | controlCharacter
  | invalidEscape
  | loneSurrogate
  | unfinishedSurrogate
  | invalidNumber
  | numberOutOfRange
  | tooDeep
  | shape (fault : ShapeFault)
deriving DecidableEq, Repr

/-- The wording of a fault. -/
def Fault.message : Fault → String
  | .endInValue => "EOF while parsing a value"
  | .endInObject => "EOF while parsing an object"
  | .endInList => "EOF while parsing a list"
  | .endInString => "EOF while parsing a string"
  | .expectedValue => "expected value"
  | .expectedIdent => "expected ident"
  | .expectedColon => "expected `:`"
  | .expectedMember => "expected `,` or `\x7d`"
  | .expectedElement => "expected `,` or `]`"
  | .keyNotString => "key must be a string"
  | .trailingComma => "trailing comma"
  | .trailingCharacters => "trailing characters"
  | .controlCharacter => "control character (\\u0000-\\u001F) found while parsing a string"
  | .invalidEscape => "invalid escape"
  | .loneSurrogate => "lone leading surrogate in hex escape"
  | .unfinishedSurrogate => "unexpected end of hex escape"
  | .invalidNumber => "invalid number"
  | .numberOutOfRange => "number out of range"
  | .tooDeep => "recursion limit exceeded"
  | .shape fault => fault.message

/-- A fault and the number of bytes after which it is placed. -/
structure Failure where
  fault : Fault
  offset : Nat
deriving DecidableEq, Repr

/-- A reader of a value from the front of a text. -/
abbrev Reader (α : Type) : Type := StateT Text.Cursor (Except Failure) α

/-- Stop with a fault placed after the bytes read so far and `extra` more. -/
def failAfter {α : Type} (fault : Fault) (extra : Nat) : Reader α := fun cursor =>
  .error ⟨fault, cursor.offset + extra⟩

/-- Stop with a fault placed after the bytes read so far. -/
def failHere {α : Type} (fault : Fault) : Reader α := failAfter fault 0

/-- Stop with a fault placed after the byte that comes next, or at the end if there is none. -/
def failAtNext {α : Type} (fault : Fault) : Reader α := do
  let cursor ← get
  failAfter fault (if cursor.rest.isEmpty then 0 else 1)

/-- The next character, which stays unread. -/
def peek : Reader (Option Char) := do return (← get).rest.head?

/-- Read the next character. -/
def skip : Reader Unit := modify Text.Cursor.next

/-- Whether a character may stand between the tokens of a text. -/
def isBlank (c : Char) : Bool := c = ' ' || c = '\t' || c = '\n' || c = '\r'

/-- Read the blanks that come next. -/
def skipBlanks : Reader Unit := modify fun cursor =>
  let blanks := cursor.rest.takeWhile isBlank
  ⟨cursor.rest.drop blanks.length, cursor.offset + blanks.length⟩

/-- The character that comes next after blanks, which stays unread. -/
def nextToken : Reader (Option Char) := do
  skipBlanks
  peek

end Synopsis.Json
