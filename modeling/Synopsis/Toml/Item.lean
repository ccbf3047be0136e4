import Synopsis.Range

/-!
# TOML documents

A document is a table of keys with values in the order in which they appear. Keys and values keep
the range of bytes at which they are written. A table remembers how it came about, because that
decides whether later lines may add to it.
-/

namespace Synopsis.Toml

/-- A key with the range at which it is written. -/
structure Key where
  name : String
  range : Range
deriving DecidableEq, Repr

/-- A value without parts. A date or time is kept as it is written. -/
inductive Scalar where
  | string (value : String)
  | integer (value : Int)
  | float (value : Float)
  | boolean (value : Bool)
  | datetime (text : String)

/-- How a table came about. -/
inductive TableForm where
  /-- The document itself. -/
  | root
  /-- A header of its own. -/
  | header
  /-- The header of a table below it. -/
  | implicit
  /-- A dotted key. -/
  | dotted
  /-- Braces within a line. -/
  | braced
deriving DecidableEq, Repr

/-- What a key can stand for. Only tables with a header or with braces have a range of their own. -/
inductive Item where
  | scalar (range : Range) (value : Scalar)
  | array (range : Range) (items : List Item)
  | table (form : TableForm) (range : Option Range) (entries : List (Key × Item))
  /-- An array of tables with headers. -/
  | tables (elements : List Item)

namespace Item

/-- A table without entries. -/
def emptyTable (form : TableForm) (range : Option Range) : Item := .table form range []

/-- The range of a value. An array of tables reaches from its first table to its last. -/
def range? : Item → Option Range
  | .scalar range _ => some range
  | .array range _ => some range
  | .table _ range _ => range
  | .tables elements =>
    match elements.head?, elements.getLast? with
    | some (.table _ (some first) _), some (.table _ (some last) _) =>
      some ⟨first.start, last.stop⟩
    | _, _ => none

/-- The entries of a table; other values have none. -/
def entries : Item → List (Key × Item)
  | .table _ _ entries => entries
  | _ => []

end Item

/-- The entry of a key by its name. -/
def lookup? (name : String) (entries : List (Key × Item)) : Option Item :=
  (entries.find? fun (key, _) => key.name = name).map Prod.snd

/-- The entries with another value at a name. -/
def replaceAt (name : String) (item : Item) (entries : List (Key × Item)) : List (Key × Item) :=
  entries.map fun (key, old) => if key.name = name then (key, item) else (key, old)

end Synopsis.Toml
