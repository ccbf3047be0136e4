import Synopsis.Json.Record
import Synopsis.Text.Position
import Synopsis.TreeFile

/-!
# Reading tree files

A tree file is JSON text with two kinds of record, one for the file and one for each entry. Brackets
may be nested 127 deep. Whatever reads the file, a text that cannot be read is rejected with a single
diagnostic that points at the byte before the line and column that the reader reports.
-/

namespace Synopsis

namespace Entry

/-- The fields of an entry read so far. -/
structure Fields where
  kind : Option String := none
  start : Option Nat := none
  stop : Option Nat := none
  children : Option (List Entry) := none
  synthetic : Option Bool := none
  sealed : Option Bool := none

/-- The fields of an entry in their own order. -/
def fieldNames : List String := ["kind", "start", "end", "children", "synthetic", "opaque"]

/-- The reader of a field of an entry, given a reader of its children. -/
def member (children : Json.Reader (List Entry)) (name : String) (fields : Fields) :
    Except ShapeFault (Json.Reader Fields) :=
  match name with
  | "kind" => Json.once name fields.kind do
    return { fields with kind := some (← Json.string) }
  | "start" => Json.once name fields.start do
    return { fields with start := some (← Json.word32) }
  | "end" => Json.once name fields.stop do
    return { fields with stop := some (← Json.word32) }
  | "children" => Json.once name fields.children do
    return { fields with children := some (← children) }
  | "synthetic" => Json.once name fields.synthetic do
    return { fields with synthetic := some (← Json.truth) }
  | "opaque" => Json.once name fields.sealed do
    return { fields with sealed := some (← Json.truth) }
  | _ => .error (.unknownField name fieldNames)

/-- The entry with the fields that were read. The children and the marks may be left off. -/
def ofFields (fields : Fields) : Except ShapeFault Entry := do
  let kind ← Json.present "kind" fields.kind
  let start ← Json.present "start" fields.start
  let stop ← Json.present "end" fields.stop
  return .entry kind start stop (fields.children.getD []) (fields.synthetic.getD false)
    (fields.sealed.getD false)

/-- Read an entry written as the list of its fields. -/
def asList (children : Json.Reader (List Entry)) : Json.Reader Entry := do
  let expected := "struct NodeEntry with 6 elements"
  Json.skip
  let kind ← Json.required 0 expected Json.string
  let start ← Json.required 1 expected Json.word32
  let stop ← Json.required 2 expected Json.word32
  let children ← Json.optional [] children
  let synthetic ← Json.optional false Json.truth
  let sealed ← Json.optional false Json.truth
  Json.closeList
  return .entry kind start stop children synthetic sealed

/-- The two forms of an entry, given a reader of its children. -/
def forms (children : Json.Reader (List Entry)) : Json.RecordForms Entry :=
  { asObject := Json.object (member children) {} ofFields, asList := asList children }

/-- Read the children of an entry, unless their bracket would be nested too deeply. -/
def childList (child : Option (Json.Reader Entry)) : Json.Reader (List Entry) :=
  Json.value fun c =>
    match c, child with
    | '[', some child => Json.listOf child
    | '[', none => Json.failAtNext .tooDeep
    | c, _ => Json.mismatch c "a sequence"

/-- Read an entry under which brackets may be nested `depth` deep. -/
def read : Nat → Json.Reader Entry
  | 0 => Json.record "struct NodeEntry" none
  | 1 => Json.record "struct NodeEntry" (some (forms (childList none)))
  | depth + 2 => Json.record "struct NodeEntry" (some (forms (childList (some (read depth)))))

end Entry

namespace TreeFile

/-- How deeply the brackets of a tree file may be nested. -/
def depthLimit : Nat := 127

/-- The fields of a tree file read so far. -/
structure Fields where
  file : Option String := none
  text : Option String := none
  root : Option Entry := none

/-- The reader of a field of a tree file. -/
def member (name : String) (fields : Fields) : Except ShapeFault (Json.Reader Fields) :=
  match name with
  | "file" => Json.once name fields.file do
    return { fields with file := some (← Json.string) }
  | "text" => Json.once name fields.text do
    return { fields with text := some (← Json.string) }
  | "root" => Json.once name fields.root do
    return { fields with root := some (← Entry.read (depthLimit - 1)) }
  | _ => .error (.unknownField name ["file", "text", "root"])

/-- The tree file with the fields that were read. -/
def ofFields (fields : Fields) : Except ShapeFault TreeFile := do
  let file ← Json.present "file" fields.file
  let text ← Json.present "text" fields.text
  let root ← Json.present "root" fields.root
  return ⟨⟨file, text⟩, root⟩

/-- Read a tree file written as the list of its fields. -/
def asList : Json.Reader TreeFile := do
  let expected := "struct TreeFile with 3 elements"
  Json.skip
  let file ← Json.required 0 expected Json.string
  let text ← Json.required 1 expected Json.string
  let root ← Json.required 2 expected (Entry.read (depthLimit - 1))
  Json.closeList
  return ⟨⟨file, text⟩, root⟩

/-- Why no tree file can be read from a text: the fault in words, and the line and column at which it is
reported. -/
structure ReadFault where
  message : String
  place : Text.LineColumn

/-- A way to read tree files from text. -/
abbrev Decoder : Type := String → Except ReadFault TreeFile

/-- A fault of JSON text with its line and column. -/
def ReadFault.ofFailure (json : String) (failure : Json.Failure) : ReadFault :=
  let place := Text.lineColumn json.toList failure.offset
  { message := s!"{failure.fault.message} at line {place.line} column {place.column}", place }

/-- Read a tree file from JSON text. -/
def read : Decoder := fun json =>
  (Json.readAll
    (Json.record "struct TreeFile" (some { asObject := Json.object member {} ofFields, asList }))
    json).mapError (ReadFault.ofFailure json)

/-- A reading fault in words, with the byte that it points at. -/
def readingDiagnostic (text : String) (fault : ReadFault) : Diagnostic :=
  { message := s!"invalid tree file: {fault.message}"
    range := Range.point (Text.offsetOf text.toList fault.place) }

end TreeFile

namespace Tree

/-- The tree of the tree file that a decoder reads from a text. The text goes by a name. -/
def parseWith (decode : TreeFile.Decoder) (text name : String) : Except LoadError Tree :=
  match decode text with
  | .error fault => .error (.rejected ⟨name, text, [TreeFile.readingDiagnostic text fault]⟩)
  | .ok file => file.load

/-- The tree of a tree file in JSON text that goes by a name. -/
def parse (json name : String) : Except LoadError Tree := parseWith TreeFile.read json name

end Tree

end Synopsis
