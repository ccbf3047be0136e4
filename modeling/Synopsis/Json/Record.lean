import Synopsis.Json.Scalar

/-!
# Records of fixed fields

A record may be written as an object, in any order of its fields, or as the list of its fields in
their own order. A fault in the shape of a record is placed after the record's closing bracket if
that comes next, and otherwise where the reader stands.
-/

namespace Synopsis.Json

variable {α σ : Type}

/-- Stop with a fault in the shape of a record that is closed by a character. -/
def failInRecord (closing : Char) (fault : ShapeFault) : Reader α := do
  if (← nextToken) = some closing then skip
  failHere (.shape fault)

/-- Read the next key of an object. There is none before the closing bracket, which stays unread. -/
def nextKey? (first : Bool) : Reader (Option String) := do
  match ← nextToken with
  | none => failAtNext .endInObject
  | some '\x7d' => return none
  | some c =>
    if first then
      if c = '"' then return some (← quoted) else failAtNext .keyNotString
    else if c = ',' then do
      skip
      match ← nextToken with
      | some '"' => return some (← quoted)
      | some '\x7d' => failAtNext .trailingComma
      | some _ => failAtNext .keyNotString
      | none => failAtNext .endInValue
    else failAtNext .expectedMember

/-- Read the colon between a key and its value. -/
def colon : Reader Unit := do
  match ← nextToken with
  | some ':' => skip
  | some _ => failAtNext .expectedColon
  | none => failAtNext .endInObject

/-- Read at most `fuel` members of an object. For each key the fields read so far either have a
reader of its value or a fault. -/
def members (member : String → σ → Except ShapeFault (Reader σ)) : Nat → Bool → σ → Reader σ
  | 0, _, fields => return fields
  | fuel + 1, first, fields => do
    match ← nextKey? first with
    | none => return fields
    | some key =>
      match member key fields with
      | .error fault => failInRecord '\x7d' fault
      | .ok read => do
        colon
        let fields ← read
        members member fuel false fields

/-- Read an object, the cursor standing at its opening bracket. No object has more members than the
text that is left has characters. -/
def object (member : String → σ → Except ShapeFault (Reader σ)) (empty : σ)
    (complete : σ → Except ShapeFault α) : Reader α := do
  skip
  let fields ← members member ((← get).rest.length + 1) true empty
  match complete fields with
  | .ok record => do
    skip
    return record
  | .error fault => failInRecord '\x7d' fault

/-- Read the next element of a list. There is none before the closing bracket, which stays
unread. -/
def element? (first : Bool) (read : Reader α) : Reader (Option α) := do
  match ← nextToken with
  | none => failAtNext .endInList
  | some ']' => return none
  | some c =>
    if first then return some (← read)
    else if c = ',' then do
      skip
      match ← nextToken with
      | some ']' => failAtNext .trailingComma
      | some _ => return some (← read)
      | none => failAtNext .endInValue
    else failAtNext .expectedElement

/-- Read the closing bracket of a list. -/
def closeList : Reader Unit := do
  match ← nextToken with
  | some ']' => skip
  | some ',' => do
    skip
    match ← nextToken with
    | some ']' => failAtNext .trailingComma
    | _ => failAtNext .trailingCharacters
  | some _ => failAtNext .trailingCharacters
  | none => failAtNext .endInList

/-- Read at most `fuel` elements of a list, those read so far being given in reverse order. -/
def elements (read : Reader α) : Nat → Bool → List α → Reader (List α)
  | 0, _, earlier => return earlier.reverse
  | fuel + 1, first, earlier => do
    match ← element? first read with
    | none => return earlier.reverse
    | some a => elements read fuel false (a :: earlier)

/-- Read a list of equal elements, the cursor standing at its opening bracket. -/
def listOf (read : Reader α) : Reader (List α) := do
  skip
  let items ← elements read ((← get).rest.length + 1) true []
  closeList
  return items

/-- Read an element of a record written as a list that may not be left off. -/
def required (index : Nat) (expected : String) (read : Reader α) : Reader α := do
  match ← element? (index = 0) read with
  | some a => return a
  | none => failInRecord ']' (.invalidLength index expected)

/-- Read an element of a record written as a list that may be left off. -/
def optional (absent : α) (read : Reader α) : Reader α := do
  return (← element? false read).getD absent

/-- The two ways to read a record. Both start at the opening bracket. -/
structure RecordForms (α : Type) where
  asObject : Reader α
  asList : Reader α

/-- Read a record in either form, unless its brackets would be nested too deeply. -/
def record (expected : String) (forms : Option (RecordForms α)) : Reader α := value fun c =>
  match c, forms with
  | '\x7b', some forms => forms.asObject
  | '[', some forms => forms.asList
  | '\x7b', none | '[', none => failAtNext .tooDeep
  | c, _ => mismatch c expected

/-- A field that has not been read before. -/
def once {β : Type} (name : String) (field : Option β) (read : Reader σ) :
    Except ShapeFault (Reader σ) :=
  match field with
  | none => .ok read
  | some _ => .error (.duplicateField name)

/-- A field that must have been read. -/
def present {β : Type} (name : String) : Option β → Except ShapeFault β
  | some field => .ok field
  | none => .error (.missingField name)

/-- Read a whole text as one value. -/
def readAll (read : Reader α) (text : String) : Except Failure α :=
  let whole : Reader α := do
    let result ← read
    match ← nextToken with
    | none => return result
    | some _ => failAtNext .trailingCharacters
  whole.run' (Text.Cursor.ofString text)

end Synopsis.Json
