import Synopsis.Diagnostic
import Synopsis.Dump
import Synopsis.Rules
import Synopsis.Shape
import Synopsis.Text.Words

/-!
# Settings

Settings are the summary rules in force and the width of previews. Rules come in layers: the
built-in ones, then those of the settings file, then those of the command line; a later layer
overrides an earlier one kind by kind. Names of kinds are checked layer by layer, and the first
unknown one is reported with the place that names it.
-/

namespace Synopsis

/-- The rules and the preview width in force. -/
structure Settings where
  rules : Rules
  previewWidth : Nat
deriving DecidableEq

/-- The settings where no file says otherwise. -/
def Settings.standard : Settings := ⟨Rules.declarations, Host.previewWidth⟩

/-- The contents of a settings file, with what its absent fields stand for. -/
structure SettingsFile where
  defaults : Bool := true
  skip : List String := []
  skipChildren : List String := []
  /-- Kinds with the text that replaces them; no kind is named twice. -/
  replace : List (String × String) := []
  previewWidth : Option Nat := none
deriving DecidableEq, Repr

/-- Why there are no settings. -/
inductive SettingsFault where
  /-- The file cannot be read. -/
  | unreadable (path reason : String)
  /-- The text of the file is no document. -/
  | malformed
  /-- The document does not have the shape of settings. -/
  | shape (fault : ShapeFault) (range : Range)
  /-- A kind that does not exist is named by a field or an option. -/
  | unknownKind (name place : String)
  /-- A replacement without an equals sign. -/
  | noReplacement (given : String)
  /-- A preview width below the least. -/
  | narrow (width : Nat)
deriving DecidableEq, Repr

namespace SettingsFault

/-- A fault of settings in words. -/
def diagnostic : SettingsFault → Diagnostic
  | .unreadable path reason => Diagnostic.general s!"cannot read '{path}': {reason}"
  | .malformed => Diagnostic.general "invalid spanfmt.toml"
  | .shape fault range => { message := s!"invalid spanfmt.toml: {fault.message}", range }
  | .unknownKind name place =>
    { Diagnostic.general s!"unknown node kind '{name}' in '{place}'" with
      help := some "kind names are case-sensitive, e.g. 'JSDocComment'" }
  | .noReplacement given => Diagnostic.general s!"--replace expects KIND=TEXT, got '{given}'"
  | .narrow width =>
    Diagnostic.general s!"dump.preview_width must be at least 4, got {width}"

end SettingsFault

/-- The kind with a name that stands in a place. -/
def readKind (name place : String) : Except SettingsFault Kind :=
  match Kind.ofName? name with
  | some kind => .ok kind
  | none => .error (.unknownKind name place)

namespace Rules

/-- Set one modification for each kind that a place names. -/
def setAll (rules : Rules) (place : String) (modification : Modification) :
    List String → Except SettingsFault Rules
  | [] => .ok rules
  | name :: rest => do
    let kind ← readKind name place
    (rules.set kind modification).setAll place modification rest

/-- Set a replacement for each kind that a place names with a text. -/
def replaceAll (rules : Rules) (place : String) :
    List (String × String) → Except SettingsFault Rules
  | [] => .ok rules
  | (name, text) :: rest => do
    let kind ← readKind name place
    (rules.set kind (.replace text)).replaceAll place rest

/-- The name and the text on either side of the first equals sign, the name without blanks around
it. -/
def readReplacement (given : String) : Except SettingsFault (String × String) :=
  let name := given.toList.takeWhile (· ≠ '=')
  match given.toList.drop name.length with
  | [] => .error (.noReplacement given)
  | _ :: text => .ok (String.ofList (Text.trim name), String.ofList text)

/-- Set the replacements that the command line gives. -/
def replaceGiven (rules : Rules) (place : String) : List String → Except SettingsFault Rules
  | [] => .ok rules
  | given :: rest => do
    let (name, text) ← readReplacement given
    let kind ← readKind name place
    (rules.set kind (.replace text)).replaceGiven place rest

/-- Lay the rules of the command line over others. -/
def override (rules : Rules) (skip replace : List String) : Except SettingsFault Rules := do
  let rules ← rules.setAll "--skip" .skipAll skip
  rules.replaceGiven "--replace" replace

end Rules

namespace SettingsFile

/-- The least preview width that a settings file may ask for. -/
def leastWidth : Nat := 4

/-- The replacements of a file in ascending order of names. -/
def sortedReplacements (file : SettingsFile) : List (String × String) :=
  file.replace.mergeSort fun left right => decide (left.1 ≤ right.1)

/-- The rules of a file. Replacements override skipped children, which override skipped kinds. -/
def rules (file : SettingsFile) : Except SettingsFault Rules := do
  let base := if file.defaults then Rules.declarations else Rules.empty
  let rules ← base.setAll "summary.skip" .skipAll file.skip
  let rules ← rules.setAll "summary.skip_children" .skipChildren file.skipChildren
  rules.replaceAll "summary.replace" file.sortedReplacements

/-- The settings of a file. -/
def settings (file : SettingsFile) : Except SettingsFault Settings := do
  let rules ← file.rules
  let width := file.previewWidth.getD Host.previewWidth
  if width < leastWidth then .error (.narrow width) else return ⟨rules, width⟩

end SettingsFile

end Synopsis
