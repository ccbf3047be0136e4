import Synopsis.Decimal.Shortest
import Synopsis.Settings
import Synopsis.Toml.Document

/-!
# Reading settings

A settings file has two sections, each a table or the list of its fields in their own order. Fields
are checked in the order of the document, and the first fault is reported with the range of the key
or value that it is about. A value without a range of its own takes that of its key.
-/

namespace Synopsis

open Toml (Item Scalar Key)

/-- A value of settings, or a fault in the shape of the document with its range. -/
abbrev Shaped (α : Type) : Type := Except SettingsFault α

namespace Toml

/-- Floating point numbers are written in positional notation; infinity and what is no number have
names. -/
def floatText (x : Float) : String :=
  if x.isNaN then "NaN"
  else
    let sign := if Decimal.isNegative x then "-" else ""
    if x.isInf then sign ++ "inf" else sign ++ (Decimal.ofFloat .up x).positional

/-- The key under which a date or time stands when it is taken apart. -/
def datetimeKey : String := "$__toml_private_datetime"

/-- A value as messages name it. Dates and times count as maps. -/
def Item.found : Item → Found
  | .scalar _ (.string value) => .string value
  | .scalar _ (.integer value) => .integer value
  | .scalar _ (.float value) => .float (floatText value)
  | .scalar _ (.boolean value) => .boolean value
  | .scalar _ (.datetime _) => .map
  | .array _ _ => .sequence
  | .table _ _ _ => .map
  | .tables _ => .sequence

/-- A value together with the range that faults are reported at. -/
structure Located where
  item : Item
  range : Range

namespace Located

/-- The value of a key. -/
def ofEntry (key : Key) (item : Item) : Located := ⟨item, item.range?.getD key.range⟩

/-- A value within a list. -/
def ofElement (list : Range) (item : Item) : Located := ⟨item, item.range?.getD list⟩

/-- Refuse a value because another type was expected. -/
def mismatch {α : Type} (found : Located) (expected : String) : Shaped α :=
  .error (.shape (.invalidType found.item.found expected) found.range)

/-- A string. -/
def string (found : Located) : Shaped String :=
  match found.item with
  | .scalar _ (.string value) => .ok value
  | _ => found.mismatch "a string"

/-- A truth value. -/
def truth (found : Located) : Shaped Bool :=
  match found.item with
  | .scalar _ (.boolean value) => .ok value
  | _ => found.mismatch "a boolean"

/-- A number of characters. -/
def count (found : Located) : Shaped Nat :=
  match found.item with
  | .scalar _ (.integer value) =>
    if 0 ≤ value then .ok value.toNat
    else .error (.shape (.invalidValue (.integer value) "usize") found.range)
  | _ => found.mismatch "usize"

/-- The elements of a list. -/
def elements? (found : Located) : Option (List Located) :=
  match found.item with
  | .array _ items => some (items.map (ofElement found.range))
  | .tables items => some (items.map (ofElement found.range))
  | _ => none

/-- The entries of a map. -/
def entries? (found : Located) : Option (List (Key × Located)) :=
  match found.item with
  | .table _ _ entries => some (entries.map fun (key, item) => (key, ofEntry key item))
  | .scalar range (.datetime text) =>
    some [(⟨datetimeKey, range⟩, ⟨.scalar range (.string text), range⟩)]
  | _ => none

/-- A list of strings. -/
def strings (found : Located) : Shaped (List String) :=
  match found.elements? with
  | some elements => elements.mapM string
  | none => found.mismatch "a sequence"

/-- A map of strings. -/
def stringMap (found : Located) : Shaped (List (String × String)) :=
  match found.entries? with
  | some entries => entries.mapM fun (key, value) => do return (key.name, ← value.string)
  | none => found.mismatch "a map"

end Located

/-- A key that a table does not know. -/
def unknownKey {α : Type} (key : Key) (known : List String) : Shaped α :=
  .error (.shape (.unknownField key.name known) key.range)

end Toml

namespace SettingsFile

/-- The fields of the summary section in their own order, each laid into a settings file. -/
def summaryFields : List (String × (SettingsFile → Toml.Located → Shaped SettingsFile)) :=
  [("defaults", fun file found => do return { file with defaults := ← found.truth }),
    ("skip", fun file found => do return { file with skip := ← found.strings }),
    ("skip_children", fun file found => do return { file with skipChildren := ← found.strings }),
    ("replace", fun file found => do return { file with replace := ← found.stringMap })]

/-- The fields of the dump section. -/
def dumpFields : List (String × (SettingsFile → Toml.Located → Shaped SettingsFile)) :=
  [("preview_width", fun file found => do
    return { file with previewWidth := some (← found.count) })]

/-- Lay the entries of a table into a settings file. -/
def layEntries (fields : List (String × (SettingsFile → Toml.Located → Shaped SettingsFile))) :
    SettingsFile → List (Key × Toml.Located) → Shaped SettingsFile
  | file, [] => .ok file
  | file, (key, found) :: rest =>
    match fields.find? fun (name, _) => name = key.name with
    | none => Toml.unknownKey key (fields.map Prod.fst)
    | some (_, lay) => do
      let file ← lay file found
      layEntries fields file rest

/-- Lay the elements of a list into the fields of a settings file in order. Surplus elements do not
count. -/
def layElements (file : SettingsFile) :
    List (SettingsFile → Toml.Located → Shaped SettingsFile) → List Toml.Located →
      Shaped SettingsFile
  | lay :: fields, found :: rest => do
    let file ← lay file found
    file.layElements fields rest
  | _, _ => .ok file

/-- Lay a section into a settings file. Written as a list, it may not be shorter than `least`. -/
def laySection (fields : List (String × (SettingsFile → Toml.Located → Shaped SettingsFile)))
    (expected : String) (least : Nat) (file : SettingsFile) (found : Toml.Located) :
    Shaped SettingsFile :=
  match found.entries?, found.elements? with
  | some entries, _ => layEntries fields file entries
  | none, some elements =>
    if elements.length < least then
      .error (.shape (.invalidLength elements.length s!"{expected} with 1 element") found.range)
    else file.layElements (fields.map Prod.snd) elements
  | none, none => found.mismatch expected

/-- The sections of a settings file. -/
def sections : List (String × (SettingsFile → Toml.Located → Shaped SettingsFile)) :=
  [("summary", laySection summaryFields "struct SummarySection" 0),
    ("dump", laySection dumpFields "struct DumpSection" 1)]

/-- The settings file in a text. -/
def read (text : String) : Except SettingsFault SettingsFile :=
  match Toml.read? text with
  | none => .error .malformed
  | some document =>
    layEntries sections {} (document.entries.map fun (key, item) =>
      (key, Toml.Located.ofEntry key item))

end SettingsFile

/-- The settings in a text. -/
def Settings.parse (text : String) : Except SettingsFault Settings := do
  let file ← SettingsFile.read text
  file.settings

end Synopsis
