import Synopsis.Toml.Item

/-!
# Putting a document together

The lines of a document are put in one after the other. A key is set only once. A header may open a
table that was so far only implied, which then moves behind its siblings; it may not open one that
has a header, braces or dotted keys of its own. Dotted keys may add only to tables that dotted keys
have made, or reach such tables through implied ones.
-/

namespace Synopsis.Toml

/-- Whether later lines may add below a table. Nothing is added to a table in braces, and dotted
keys do not enter tables that are defined elsewhere. -/
def TableForm.admits (form : TableForm) (dotted : Bool) : Bool :=
  match form with
  | .braced => false
  | .root | .header => !dotted
  | .implicit | .dotted => true

namespace Item

/-- Change the table that a path leads to, making missing tables on the way. A path through an array
of tables goes to its last one. -/
def descend (dotted : Bool) (change : Item → Option Item) : List Key → Item → Option Item
  | [], item => change item
  | key :: path, .table form range entries =>
    match lookup? key.name entries with
    | none => do
      let made := emptyTable (if dotted then .dotted else .implicit) none
      let child ← descend dotted change path made
      return .table form range (entries ++ [(key, child)])
    | some (.table childForm childRange childEntries) =>
      if !childForm.admits dotted then none
      else do
        let child ← descend dotted change path (.table childForm childRange childEntries)
        return .table form range (replaceAt key.name child entries)
    | some (.tables elements) => do
      let last ← elements.getLast?
      let changed ← descend dotted change path last
      let elements := elements.dropLast ++ [changed]
      return .table form range (replaceAt key.name (.tables elements) entries)
    | some _ => none
  | _ :: _, _ => none

/-- Add a key to a table that does not have it. -/
def insertNew (table : Item) (key : Key) (value : Item) : Option Item :=
  match table with
  | .table form range entries =>
    match lookup? key.name entries with
    | none => some (.table form range (entries ++ [(key, value)]))
    | some _ => none
  | _ => none

/-- Whether a table was made by dotted keys. -/
def isDotted : Item → Bool
  | .table .dotted _ _ => true
  | _ => false

/-- Set the key at the end of a dotted path below a table. -/
def assign (table : Item) (path : List Key) (value : Item) : Option Item :=
  match path.getLast? with
  | none => none
  | some key =>
    let above := path.dropLast
    table.descend true (fun target =>
      if target.isDotted = above.isEmpty then none else target.insertNew key value) above

/-- Extend the range of a table, if it has one, to the end of a value. -/
def extendTo (table value : Item) : Item :=
  match table, value.range? with
  | .table form (some range) entries, some written =>
    .table form (some ⟨range.start, written.stop⟩) entries
  | _, _ => table

/-- Open the table with a header in its parent. -/
def openTable (key : Key) (header : Range) : Item → Option Item
  | .table form range entries =>
    match lookup? key.name entries with
    | none => some (.table form range (entries ++ [(key, emptyTable .header (some header))]))
    | some (.table .implicit _ inner) =>
      let others := entries.filter fun (other, _) => other.name ≠ key.name
      some (.table form range (others ++ [(key, .table .header (some header) inner)]))
    | some _ => none
  | _ => none

/-- Add a table with a header to an array of tables in its parent. -/
def openElement (key : Key) (header : Range) : Item → Option Item
  | .table form range entries =>
    let element := emptyTable .header (some header)
    match lookup? key.name entries with
    | none => some (.table form range (entries ++ [(key, .tables [element])]))
    | some (.tables elements) =>
      some (.table form range (replaceAt key.name (.tables (elements ++ [element])) entries))
    | some _ => none
  | _ => none

end Item

/-- A line of a document that is not blank. -/
inductive Statement where
  | assign (path : List Key) (value : Item)
  | openTable (path : List Key) (header : Range)
  | openElement (path : List Key) (header : Range)

/-- A document under construction and the path to the table that keys are set in. -/
structure Assembly where
  document : Item
  current : List Key

namespace Assembly

/-- An empty document, with keys set at its top. -/
def empty : Assembly := ⟨Item.emptyTable .root none, []⟩

/-- Open the table at the end of a path and make it current. -/
def enter (assembly : Assembly) (path : List Key) (opening : Key → Item → Option Item) :
    Option Assembly := do
  let key ← path.getLast?
  let document ← assembly.document.descend false (opening key) path.dropLast
  return ⟨document, path⟩

/-- Put in one line. -/
def add (assembly : Assembly) : Statement → Option Assembly
  | .assign path value => do
    let change (table : Item) : Option Item := do return (← table.assign path value).extendTo value
    return { assembly with document := ← assembly.document.descend false change assembly.current }
  | .openTable path header => assembly.enter path fun key => Item.openTable key header
  | .openElement path header => assembly.enter path fun key => Item.openElement key header

end Assembly

/-- The document that some lines make up. -/
def assemble (statements : List Statement) : Option Item := do
  let assembly ← statements.foldlM Assembly.add Assembly.empty
  return assembly.document

end Synopsis.Toml
