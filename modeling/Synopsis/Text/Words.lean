import Synopsis.Text.Blank

/-!
# Words of a text

A text is cut at every character that satisfies a predicate. The non-empty pieces between blanks
are its words, and collapsing a text writes its words with one space between neighbours.
-/

namespace Synopsis.Text

/-- The pieces between the separators of a text; there is one piece more than separators. -/
def splitWhere (isSeparator : Char → Bool) : List Char → List (List Char)
  | [] => [[]]
  | c :: rest =>
    if isSeparator c then [] :: splitWhere isSeparator rest
    else match splitWhere isSeparator rest with
      | [] => [[c]]
      | piece :: pieces => (c :: piece) :: pieces

/-- The maximal runs of characters that are not blank, in order. -/
def words (text : List Char) : List (List Char) :=
  (splitWhere isBlank text).filter (· ≠ [])

/-- Write a word behind what is written so far, after a space unless nothing is. -/
def addWord (out word : List Char) : List Char :=
  (if out.isEmpty then out else out ++ [' ']) ++ word

/-- A text with each run of blanks inside it squeezed to one space and none at its ends. -/
def collapse (text : String) : String :=
  String.ofList ((words text.toList).foldl addWord [])

/-- A text without the blanks at its start. -/
def trimStart (text : List Char) : List Char := text.dropWhile isBlank

/-- A text without the blanks at its start and end. -/
def trim (text : List Char) : List Char :=
  (trimStart (trimStart text).reverse).reverse

end Synopsis.Text
