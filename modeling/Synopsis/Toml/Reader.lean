import Synopsis.Range
import Synopsis.Text.Cursor

/-!
# Reading TOML text

A reader takes a piece from the front of a text or fails. Failures are not told apart: a text is a
document or it is not.
-/

namespace Synopsis.Toml

/-- A reader of a piece from the front of a text. -/
abbrev Reader (α : Type) : Type := StateT Text.Cursor Option α

/-- The next character, which stays unread. -/
def peek : Reader (Option Char) := do return (← get).rest.head?

/-- Read the next character. -/
def skip : Reader Unit := modify Text.Cursor.next

/-- Read one particular character. -/
def char (expected : Char) : Reader Unit := do
  guard ((← peek) = some expected)
  skip

/-- Read a particular text if it comes next. -/
def literal? (expected : List Char) : Reader Bool := do
  let cursor ← get
  if expected.isPrefixOf cursor.rest then
    set (expected.foldl (fun cursor _ => cursor.next) cursor)
    return true
  else return false

/-- Read the characters of a class that come next. -/
def takeWhile (inClass : Char → Bool) : Reader (List Char) := do
  let cursor ← get
  let taken := cursor.rest.takeWhile inClass
  set (taken.foldl (fun cursor _ => cursor.next) cursor)
  return taken

/-- Read a piece together with the range at which it is written. -/
def ranged {α : Type} (read : Reader α) : Reader (α × Range) := do
  let start := (← get).offset
  let piece ← read
  return (piece, ⟨start, (← get).offset⟩)

/-- Whether a character may stand in a comment, and so anywhere in a text. -/
def isPlain (c : Char) : Bool :=
  c = '\t' || (0x20 ≤ c.toNat && c.toNat ≤ 0x7E) || 0x80 ≤ c.toNat

/-- Read the spaces and tabs that come next. -/
def spaces : Reader Unit := do
  let _ ← takeWhile fun c => c = ' ' || c = '\t'

/-- Read a line break if one comes next. -/
def newline? : Reader Bool := do
  if ← literal? ['\n'] then return true else literal? ['\r', '\n']

/-- Read a comment if one comes next. -/
def comment : Reader Unit := do
  if (← peek) = some '#' then
    let _ ← takeWhile isPlain

/-- Read the rest of a line, which holds nothing but a comment. -/
def lineEnd : Reader Unit := do
  spaces
  comment
  unless (← get).rest.isEmpty do guard (← newline?)

/-- Read blanks, comments and line breaks, over at most `fuel` lines. -/
def blankLines : Nat → Reader Unit
  | 0 => return
  | fuel + 1 => do
    spaces
    comment
    if ← newline? then blankLines fuel

/-- Read blanks, comments and line breaks. -/
def blank : Reader Unit := do blankLines ((← get).rest.length + 1)

end Synopsis.Toml
