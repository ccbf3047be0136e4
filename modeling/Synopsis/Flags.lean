import Synopsis.Text.Numeral

/-!
# Flag words

A flag word is a set of bits in 32. It is written as the names of its bits from the lowest upwards.
Bits without a name in a table are written in hexadecimal, and the empty word has a mark of its own.
-/

namespace Synopsis

namespace Flags

/-- What stands for a word without bits. -/
def noFlags : String := "???"

/-- What has been written of a word: the text so far, and whether the next name is the first. -/
structure Progress where
  out : String := ""
  first : Bool := true

/-- Write a name, with a separator in front of it unless it is the first. -/
def Progress.add (progress : Progress) (name : String) : Progress :=
  { out := (if progress.first then progress.out else progress.out ++ ", ") ++ name, first := false }

/-- The word with one bit set. -/
def bitAt (shift : Nat) : UInt32 := (1 : UInt32) <<< shift.toUInt32

section Writing

variable {m : Type → Type} [Monad m] (word : UInt32) (nameOf : UInt32 → m String)

/-- Go on to the bit at a shift. Its name is asked for and written if it is set. -/
def writeBit (progress : Progress) (shift : Nat) : m Progress := do
  let bit := bitAt shift
  if word &&& bit = 0 then return progress
  return progress.add (← nameOf bit)

/-- The names of the bits of a word. All shifts are tried in ascending order, and the name of each bit that is
set is asked for once. -/
def format : m String := do
  let progress ← (List.range 32).foldlM (writeBit word nameOf) {}
  return if progress.first then noFlags else progress.out

end Writing

end Flags

/-- A named table of bits with their names. -/
structure FlagTable where
  name : String
  entries : List (UInt32 × String)
deriving DecidableEq, Repr

namespace FlagTable

/-- The table that gives names to the bits from the lowest upwards. -/
def ofNames (name : String) (names : List String) : FlagTable :=
  { name, entries := names.zipIdx.map fun (name, shift) => ((1 : UInt32) <<< shift.toUInt32, name) }

/-- The name of a bit, or the bit in hexadecimal if it has none. -/
def nameOf (table : FlagTable) (bit : UInt32) : String :=
  match table.entries.find? fun (value, _) => value = bit with
  | some (_, name) => name
  | none => Text.hexNumeral bit.toNat

/-- The bit with a name. -/
def bit? (table : FlagTable) (name : String) : Option UInt32 :=
  (table.entries.find? fun (_, known) => known = name).map Prod.fst

/-- A word as the names of its bits. -/
def format (table : FlagTable) (word : UInt32) : String :=
  Id.run (Flags.format word fun bit => pure (table.nameOf bit))

/-- The flags of symbols. -/
def symbols : FlagTable := ofNames "SymbolFlags" [
  "FunctionScopedVariable", "BlockScopedVariable", "Property", "EnumMember", "Function", "Class",
  "Interface", "ConstEnum", "RegularEnum", "ValueModule", "NamespaceModule", "TypeLiteral",
  "ObjectLiteral", "Method", "Constructor", "GetAccessor", "SetAccessor", "Signature",
  "TypeParameter", "TypeAlias", "ExportValue", "Alias", "Prototype", "ExportStar", "Optional",
  "Transient", "Assignment", "ModuleExports"]

/-- The flags of types. -/
def types : FlagTable := ofNames "TypeFlags" [
  "Any", "Unknown", "String", "Number", "Boolean", "Enum", "BigInt", "StringLiteral",
  "NumberLiteral", "BooleanLiteral", "EnumLiteral", "BigIntLiteral", "ESSymbol",
  "UniqueESSymbol", "Void", "Undefined", "Null", "Never", "TypeParameter", "Object", "Union",
  "Intersection", "Index", "IndexedAccess", "Conditional", "Substitution", "NonPrimitive",
  "TemplateLiteral", "StringMapping"]

/-- The table with a name, in full or in short. -/
def ofName? : String → Option FlagTable
  | "symbol" | "SymbolFlags" => some symbols
  | "type" | "TypeFlags" => some types
  | _ => none

end FlagTable

end Synopsis
