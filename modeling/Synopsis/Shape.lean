import Synopsis.Text.Quoted

/-!
# Shapes of data

Data files are read into records with fixed fields. Well-formed data may still have another shape
than the record asks for; this module holds what can be wrong and how it is worded. Fields and types
are named as a reader of the file would name them.
-/

namespace Synopsis

/-- A value that was found where another was expected. -/
inductive Found where
  | null
  | boolean (value : Bool)
  | integer (value : Int)
  /-- A floating point number in the notation of its format. -/
  | float (text : String)
  | string (value : String)
  | sequence
  | map
deriving DecidableEq, Repr

/-- The wording of a value that was found. -/
def Found.message : Found → String
  | .null => "null"
  | .boolean value => s!"boolean `{value}`"
  | .integer value => s!"integer `{value}`"
  | .float text => s!"floating point `{text}`"
  | .string value => s!"string {Text.quote value}"
  | .sequence => "sequence"
  | .map => "map"

/-- What is wrong with the shape of data. -/
inductive ShapeFault where
  /-- A value of another type. -/
  | invalidType (found : Found) (expected : String)
  /-- A value of the right type that is out of bounds. -/
  | invalidValue (found : Found) (expected : String)
  /-- A record written as a list that is too short. -/
  | invalidLength (length : Nat) (expected : String)
  | unknownField (name : String) (known : List String)
  | duplicateField (name : String)
  | missingField (name : String)
deriving DecidableEq, Repr

/-- A choice between field names. -/
def oneOf : List String → String
  | [] => "there are no fields"
  | [name] => s!"expected `{name}`"
  | [first, second] => s!"expected `{first}` or `{second}`"
  | names => "expected one of " ++ ", ".intercalate (names.map fun name => s!"`{name}`")

/-- The wording of a fault in the shape of data. -/
def ShapeFault.message : ShapeFault → String
  | .invalidType found expected => s!"invalid type: {found.message}, expected {expected}"
  | .invalidValue found expected => s!"invalid value: {found.message}, expected {expected}"
  | .invalidLength length expected => s!"invalid length {length}, expected {expected}"
  | .unknownField name known => s!"unknown field `{name}`, {oneOf known}"
  | .duplicateField name => s!"duplicate field `{name}`"
  | .missingField name => s!"missing field `{name}`"

end Synopsis
