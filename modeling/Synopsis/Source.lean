import Synopsis.Text.Position

/-!
# Source files

A named text. Locations in it print as the file's name and a line number counted from zero.
-/

namespace Synopsis

/-- A named text. -/
structure Source where
  name : String
  text : String
deriving DecidableEq, Inhabited, Repr

namespace Source

/-- The number of bytes of a source. -/
def length (source : Source) : Nat := Text.byteLength source.text.toList

/-- Whether a source has no text. -/
def isEmpty (source : Source) : Bool := source.text.isEmpty

/-- The line and character of a byte offset. -/
def position (source : Source) (offset : Nat) : Text.Position := Text.position source.text offset

/-- A byte offset as file name and line. -/
def location (source : Source) (offset : Nat) : String :=
  s!"[{source.name}#{(source.position offset).line}]"

end Source

end Synopsis
