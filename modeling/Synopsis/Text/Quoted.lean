import Synopsis.Text.Printable

/-!
# Quoted text

A text between double quotes, as messages show a string that they found. Quotes, backslashes and the
common control characters are escaped by a letter; every other character that is not printable is
written by its code point.
-/

namespace Synopsis.Text

/-- A character as it stands in a quoted text. -/
def quoteChar (c : Char) : String :=
  match c with
  | '\x00' => "\\0"
  | '\t' => "\\t"
  | '\r' => "\\r"
  | '\n' => "\\n"
  | '\\' => "\\\\"
  | '"' => "\\\""
  | _ =>
    if isPrintable c then String.singleton c
    else "\\u\x7b" ++ String.ofList (Nat.toDigits 16 c.toNat) ++ "\x7d"

/-- A text between double quotes. -/
def quote (text : String) : String :=
  "\"" ++ String.join (text.toList.map quoteChar) ++ "\""

end Synopsis.Text
