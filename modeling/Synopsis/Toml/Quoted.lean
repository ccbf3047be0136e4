import Synopsis.Text.Numeral
import Synopsis.Toml.Reader

/-!
# TOML strings

A string stands between quotes, single or double, on one line, or between three of them over several
lines. Escapes are known between double quotes only. A line break within a string counts as a line
feed, and the one right behind three opening quotes does not count.
-/

namespace Synopsis.Toml

/-- Read a character given by a number of hexadecimal digits. -/
def codePoint (count : Nat) : Reader Char := do
  let cursor ← get
  let digits := cursor.rest.take count
  guard (digits.length = count ∧ digits.all fun c => (Text.digitValue? 16 c).isSome)
  match Text.readDigits 16 0x110000 0 digits with
  | .error _ => failure
  | .ok value =>
    guard (value < 0xD800 ∨ 0xDFFF < value)
    set (digits.foldl (fun cursor _ => cursor.next) cursor)
    return Char.ofNat value

/-- Read what follows a backslash. -/
def escape : Reader Char := do
  match ← peek with
  | some 'b' => skip; return '\x08'
  | some 't' => skip; return '\t'
  | some 'n' => skip; return '\n'
  | some 'f' => skip; return '\x0c'
  | some 'r' => skip; return '\r'
  | some '"' => skip; return '"'
  | some '\\' => skip; return '\\'
  | some 'u' => skip; codePoint 4
  | some 'U' => skip; codePoint 8
  | _ => failure

/-- Read the rest of a string on one line of at most `fuel` characters. -/
def lineString (quote : Char) : Nat → List Char → Reader String
  | 0, _ => failure
  | fuel + 1, earlier => do
    match ← peek with
    | none => failure
    | some c =>
      skip
      if c = quote then return String.ofList earlier.reverse
      else if quote = '"' ∧ c = '\\' then do
        let escaped ← escape
        lineString quote fuel (escaped :: earlier)
      else do
        guard (isPlain c)
        lineString quote fuel (c :: earlier)

/-- Read a backslash at the end of a line with all blanks and line breaks after it. -/
def continuation : Reader Unit := do
  spaces
  guard (← newline?)
  let rec more : Nat → Reader Unit
    | 0 => return
    | fuel + 1 => do
      spaces
      if ← newline? then more fuel
  more ((← get).rest.length + 1)

/-- Whether a backslash ends its line, by what follows it. -/
def endsLine (rest : List Char) : Bool :=
  match rest.dropWhile fun c => c = ' ' || c = '\t' with
  | '\n' :: _ => true
  | '\r' :: '\n' :: _ => true
  | _ => false

/-- Read the rest of a string over several lines of at most `fuel` characters. Of the quotes in a
row that close it, up to two belong to the string. -/
def blockString (quote : Char) : Nat → List Char → Reader String
  | 0, _ => failure
  | fuel + 1, earlier => do
    match ← peek with
    | none => failure
    | some c =>
      if c = quote then do
        let quotes ← takeWhile (· = quote)
        if quotes.length < 3 then blockString quote fuel (quotes ++ earlier)
        else do
          guard (quotes.length ≤ 5)
          return String.ofList (quotes.drop 3 ++ earlier).reverse
      else if ← newline? then blockString quote fuel ('\n' :: earlier)
      else if quote = '"' ∧ c = '\\' then do
        skip
        if endsLine (← get).rest then do
          continuation
          blockString quote fuel earlier
        else do
          let escaped ← escape
          blockString quote fuel (escaped :: earlier)
      else do
        guard (isPlain c)
        skip
        blockString quote fuel (c :: earlier)

/-- Read a string on one line, the cursor standing behind its opening quote. -/
def line (quote : Char) : Reader String := do lineString quote ((← get).rest.length + 1) []

/-- Read a string, the cursor standing at its opening quote. -/
def quoted (quote : Char) : Reader String := do
  if ← literal? [quote, quote, quote] then do
    let _ ← newline?
    blockString quote ((← get).rest.length + 1) []
  else do
    skip
    line quote

end Synopsis.Toml
