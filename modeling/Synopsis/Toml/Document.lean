import Synopsis.Toml.Value

/-!
# Reading TOML documents

A document is read line by line; a mark of the byte order in front of it does not count.
-/

namespace Synopsis.Toml

/-- Read a header behind its opening brackets. -/
def header (closing : List Char) : Reader (List Key) := do
  let path ← key
  guard (← literal? closing)
  return path

/-- Read a line that is neither blank nor only a comment. -/
def statement : Reader Statement := do
  if (← peek) = some '[' then do
    let start := (← get).offset
    if ← literal? ['[', '['] then do
      let path ← header [']', ']']
      return .openElement path ⟨start, (← get).offset⟩
    else do
      skip
      let path ← header [']']
      return .openTable path ⟨start, (← get).offset⟩
  else do
    let (path, item) ← assignment value
    return .assign path item

/-- Read at most `fuel` lines. -/
def statements : Nat → Reader (List Statement)
  | 0 => failure
  | fuel + 1 => do
    blank
    if (← get).rest.isEmpty then return []
    else do
      let first ← statement
      lineEnd
      return first :: (← statements fuel)

/-- The document in a text. -/
def read? (text : String) : Option Item := do
  let whole : Reader (List Statement) := do
    let _ ← literal? ['\uFEFF']
    statements ((← get).rest.length + 1)
  assemble (← whole.run' (Text.Cursor.ofString text))

end Synopsis.Toml
