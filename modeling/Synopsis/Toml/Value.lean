import Synopsis.Toml.Assembly
import Synopsis.Toml.Number
import Synopsis.Toml.Quoted

/-!
# TOML keys and values

Arrays and tables in braces may hold further values. They may be nested 79 deep, and a dotted key
may have 79 parts. An array may run over several lines and end in a comma; a table in braces may
not.
-/

namespace Synopsis.Toml

/-- The number of brackets that may be nested, and of parts that a key may have. -/
def depthLimit : Nat := 79

/-- Whether a character can stand in a key without quotes. -/
def isBare (c : Char) : Bool := c.isAlphanum || c = '_' || c = '-'

/-- Read one part of a key. -/
def keyPart : Reader Key := do
  let name : Reader String := do
    match ← peek with
    | some '"' => skip; line '"'
    | some '\'' => skip; line '\''
    | _ => do
      let bare ← takeWhile isBare
      guard (bare ≠ [])
      return String.ofList bare
  let (name, range) ← ranged name
  return ⟨name, range⟩

/-- Read at most `fuel` parts of a dotted key. -/
def keyParts : Nat → Reader (List Key)
  | 0 => failure
  | fuel + 1 => do
    spaces
    let part ← keyPart
    spaces
    if (← peek) = some '.' then do
      skip
      return part :: (← keyParts fuel)
    else return [part]

/-- Read a dotted key. -/
def key : Reader (List Key) := keyParts depthLimit

/-- Read the rest of an array of at most `fuel` values. -/
def arrayItems (value : Reader Item) : Nat → Reader (List Item)
  | 0 => failure
  | fuel + 1 => do
    blank
    if (← peek) = some ']' then do
      skip
      return []
    else do
      let item ← value
      blank
      match ← peek with
      | some ',' => skip; return item :: (← arrayItems value fuel)
      | some ']' => skip; return [item]
      | _ => failure

/-- Read a key and its value. -/
def assignment (value : Reader Item) : Reader (List Key × Item) := do
  let path ← key
  char '='
  spaces
  let item ← value
  return (path, item)

/-- Read the rest of a table in braces with at most `fuel` keys, of which there is at least one. -/
def bracedEntries (value : Reader Item) : Nat → Item → Reader Item
  | 0, _ => failure
  | fuel + 1, table => do
    let (path, item) ← assignment value
    let table ← liftM (table.assign path item)
    spaces
    match ← peek with
    | some ',' => skip; bracedEntries value fuel table
    | some '\x7d' => skip; return table
    | _ => failure

/-- Read an array, the cursor standing at its bracket. -/
def array (value : Reader Item) : Reader Item := do
  let items : Reader (List Item) := do
    skip
    arrayItems value ((← get).rest.length + 1)
  let (items, range) ← ranged items
  return .array range items

/-- Read a table in braces, the cursor standing at its brace. -/
def braced (value : Reader Item) : Reader Item := do
  let entries : Reader (List (Key × Item)) := do
    skip
    spaces
    if (← peek) = some '\x7d' then do
      skip
      return []
    else
      let fuel := (← get).rest.length + 1
      return (← bracedEntries value fuel (Item.emptyTable .braced none)).entries
  let (entries, range) ← ranged entries
  return .table .braced (some range) entries

/-- Read a value without parts that starts with a character. -/
def scalar (start : Char) : Reader Item := do
  let scalar : Reader Scalar := do
    match start with
    | '"' | '\'' => return .string (← quoted start)
    | _ => do
      if ← literal? "true".toList then return .boolean true
      else if ← literal? "false".toList then return .boolean false
      else number
  let (value, range) ← ranged scalar
  return .scalar range value

/-- Read a value in which brackets may be nested `depth` deep. -/
def valueWithin : Nat → Reader Item
  | 0 => do
    match ← peek with
    | none | some '[' | some '\x7b' => failure
    | some c => scalar c
  | depth + 1 => do
    match ← peek with
    | none => failure
    | some '[' => array (valueWithin depth)
    | some '\x7b' => braced (valueWithin depth)
    | some c => scalar c

/-- Read a value. -/
def value : Reader Item := valueWithin depthLimit

end Synopsis.Toml
