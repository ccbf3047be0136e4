import Synopsis.Text.Words

/-!
# Previews

A preview is a collapsed text cut to a number of characters. A text that is cut ends in an
ellipsis, which counts towards the width but is never shortened itself.
-/

namespace Synopsis.Text

/-- The mark at the end of a text that was cut. -/
def ellipsis : String := "..."

/-- The collapsed text if it has at most `width` characters, and otherwise as many of its first
characters as leave room for the ellipsis, followed by the ellipsis. -/
def preview (text : String) (width : Nat) : String :=
  let collapsed := (collapse text).toList
  if collapsed.length ≤ width then String.ofList collapsed
  else String.ofList (collapsed.take (width - ellipsis.length)) ++ ellipsis

end Synopsis.Text
