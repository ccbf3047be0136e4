/-!
# Cursors

The place of a reader in a text: what is still to be read, and how many bytes have been read.
-/

namespace Synopsis.Text

/-- The text still to be read and the number of bytes read so far. -/
structure Cursor where
  rest : List Char
  offset : Nat
deriving DecidableEq, Repr

namespace Cursor

/-- The cursor at the start of a text. -/
def ofString (text : String) : Cursor := ⟨text.toList, 0⟩

/-- The cursor after the next character. -/
def next (cursor : Cursor) : Cursor :=
  match cursor.rest with
  | [] => cursor
  | c :: rest => ⟨rest, cursor.offset + c.utf8Size⟩

end Cursor

end Synopsis.Text
