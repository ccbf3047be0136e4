/-!
# Byte offsets and slices

Positions in a text count the bytes of its UTF-8 form. An offset that falls inside a character, or
past the end, is no place where the text can be cut, so slicing is partial.
-/

namespace Synopsis.Text

/-- The number of bytes of a text. -/
def byteLength : List Char → Nat
  | [] => 0
  | c :: rest => c.utf8Size + byteLength rest

/-- The first `offset` bytes of a text and the rest of it, unless the offset splits a character or
lies past the end. -/
def cut? : Nat → List Char → Option (List Char × List Char)
  | 0, text => some ([], text)
  | _ + 1, [] => none
  | n + 1, c :: rest =>
    if c.utf8Size ≤ n + 1 then
      (cut? (n + 1 - c.utf8Size) rest).map fun (before, after) => (c :: before, after)
    else none

/-- The text from byte `start` to byte `stop`, where both are boundaries and in order. -/
def slice? (text : String) (start stop : Nat) : Option String :=
  if start ≤ stop then do
    let (_, rest) ← cut? start text.toList
    let (piece, _) ← cut? (stop - start) rest
    return String.ofList piece
  else none

/-- The text from byte `start` to byte `stop`, or nothing where there is no such slice. -/
def sliceOrEmpty (text : String) (start stop : Nat) : String :=
  (slice? text start stop).getD ""

end Synopsis.Text
