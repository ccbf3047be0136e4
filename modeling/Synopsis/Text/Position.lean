import Synopsis.Text.Slice

/-!
# Lines and columns

Only a line feed ends a line. Two readings of a byte offset are kept apart. A `Position` counts
lines and characters from zero and is what locations print; its line is searched for in the table of
line starts. A `LineColumn` counts lines from one and bytes from the start of the line, and is what
reading errors report; the lines before it are added up to get back to an offset.
-/

namespace Synopsis.Text

/-- What a search says about a value in an ascending table: the place where it stands, or the place
where it would have to be put in. -/
inductive Lookup where
  | found (index : Nat)
  | missing (next : Nat)
deriving DecidableEq, Repr

/-- Look for a value from one place of an ascending table up to another, in halves. -/
def lookupBetween (table : Array Nat) (value low high : Nat) (hhigh : high ≤ table.size) : Lookup :=
  if hlow : low < high then
    let middle := low + (high - low) / 2
    have hmiddle : middle < table.size := by omega
    if table[middle] = value then .found middle
    else if table[middle] < value then lookupBetween table value (middle + 1) high hhigh
    else lookupBetween table value low middle (Nat.le_of_lt hmiddle)
  else .missing low
termination_by high - low

/-- Look for a value in an ascending table. -/
def lookup (table : Array Nat) (value : Nat) : Lookup :=
  lookupBetween table value 0 table.size (Nat.le_refl _)

/-- A place in a text: lines before it, and characters before it on its line. -/
structure Position where
  line : Nat
  character : Nat
deriving DecidableEq, Repr

/-- The offsets just past each line feed of a text that begins at `offset`. -/
def lineStartsFrom (offset : Nat) : List Char → List Nat
  | [] => []
  | c :: rest =>
    let next := offset + c.utf8Size
    if c = '\n' then next :: lineStartsFrom next rest else lineStartsFrom next rest

/-- The offsets at which the lines of a text start, in ascending order. -/
def lineStarts (text : List Char) : List Nat := 0 :: lineStartsFrom 0 text

/-- The line of an offset in a table of line starts: the one that starts there, or else the one before
the place where the offset would have to be put in. Before the first place there is no line. -/
def lineOf? (starts : Array Nat) (offset : Nat) : Option Nat :=
  match lookup starts offset with
  | .found line => some line
  | .missing 0 => none
  | .missing (next + 1) => some next

/-- The position of a byte offset, if it has a line and the table has that line's start. An offset past
the end counts as the end, and one that splits a character has character zero. -/
def position? (text : String) (offset : Nat) : Option Position := do
  let starts := (lineStarts text.toList).toArray
  let offset := min offset (byteLength text.toList)
  let line ← lineOf? starts offset
  let start ← starts[line]?
  return { line, character := (sliceOrEmpty text start offset).length }

/-- The position of a byte offset. -/
def position (text : String) (offset : Nat) : Position := (position? text offset).getD ⟨0, 0⟩

/-- A place in a text as reading errors report it: lines from one, bytes into the line from zero. -/
structure LineColumn where
  line : Nat
  column : Nat
deriving DecidableEq, Repr

/-- The place reached after a number of bytes of a text. -/
def lineColumn (text : List Char) (bytes : Nat) : LineColumn :=
  let earlier := (lineStartsFrom 0 text).takeWhile (· ≤ bytes)
  { line := earlier.length + 1, column := bytes - earlier.getLast?.getD 0 }

/-- The lines of a text, each with the line feed that ends it. What stands behind the last line feed is
a line if it is not empty. -/
def fullLines : List Char → List (List Char)
  | [] => []
  | c :: rest =>
    if c = '\n' then [c] :: fullLines rest
    else match fullLines rest with
      | [] => [[c]]
      | line :: lines => (c :: line) :: lines

/-- The number of bytes of lines together. -/
def totalLength : List (List Char) → Nat
  | [] => 0
  | line :: lines => byteLength line + totalLength lines

/-- The byte just before the place that an error reports, but no earlier than the start of its line
and no later than the end of the text. -/
def offsetOf (text : List Char) (place : LineColumn) : Nat :=
  let start := totalLength ((fullLines text).take (place.line - 1))
  min (start + (place.column - 1)) (byteLength text)

end Synopsis.Text
