import Mathlib.Data.Option.Basic
import Synopsis.Command.Run
import Synopsis.Proofs.Settings.Layers

/-!
# Which rule is in force

The rules of a summary are those of the settings file, or the standard ones where there is no file, with
those of the command line laid over them; a command line may also ask for neither the file nor the
standard rules. A kind takes its rule from the last replacement on the command line that names it, then
from the kinds skipped there, then from the replacements of the file, from its kinds with skipped
children, from its skipped kinds, and last from the built-in rules.
-/

namespace Synopsis

namespace SettingsFile

/-- Whether all names in a file are those of kinds and its preview width is not below the least. -/
@[mk_iff]
structure Accepted (file : SettingsFile) : Prop where
  skip : ∀ name ∈ file.skip, Known name
  skipChildren : ∀ name ∈ file.skipChildren, Known name
  replace : ∀ entry ∈ file.replace, Known entry.1
  width : 4 ≤ file.previewWidth.getD 100

/-- The rule that a file gives a kind. -/
def ruleFor (file : SettingsFile) (kind : Kind) : Option Modification :=
  match lastFor kind.name file.replace with
  | some text => some (.replace text)
  | none =>
    if kind.name ∈ file.skipChildren then some .skipChildren
    else if kind.name ∈ file.skip then some .skipAll
    else if file.defaults ∧ (kind = .jsDocComment ∨ kind = .declareKeyword) then some .skipAll
    else none

/-- Whether two files differ only in the order and the repetition of names within their lists of kinds. -/
structure Rearranged (file other : SettingsFile) : Prop where
  defaults : other.defaults = file.defaults
  skip : ∀ name, name ∈ other.skip ↔ name ∈ file.skip
  skipChildren : ∀ name, name ∈ other.skipChildren ↔ name ∈ file.skipChildren
  replace : other.replace = file.replace
  previewWidth : other.previewWidth = file.previewWidth

/-- A rearranged file is accepted exactly when the file is. -/
theorem Rearranged.accepted_iff {file other : SettingsFile} (h : Rearranged file other) :
    other.Accepted ↔ file.Accepted := by
  simp only [SettingsFile.accepted_iff, h.skip, h.skipChildren, h.replace, h.previewWidth]

/-- A rearranged file gives each kind the same rule. -/
theorem Rearranged.ruleFor_eq {file other : SettingsFile} (h : Rearranged file other) (kind : Kind) :
    other.ruleFor kind = file.ruleFor kind := by
  simp only [ruleFor, h.defaults, h.skip, h.skipChildren, h.replace]

/-- The built-in rules skip two kinds. -/
theorem base_get (defaults : Bool) (kind : Kind) :
    (if defaults then Rules.declarations else Rules.empty).get kind =
      if defaults ∧ (kind = .jsDocComment ∨ kind = .declareKeyword) then some .skipAll else none := by
  cases defaults with
  | false => simp [Rules.empty]
  | true =>
    simp only [if_true, Rules.declarations, Rules.set, Rules.empty, true_and]
    by_cases hdeclare : kind = .declareKeyword
    · simp [hdeclare]
    · simp [hdeclare]

/-- The layers of a file over the built-in rules give each kind its rule. -/
theorem get_overlays (file : SettingsFile) :
    ((((if file.defaults then Rules.declarations else Rules.empty).overlay
        (file.skip.map fun name => (name, .skipAll))).overlay
        (file.skipChildren.map fun name => (name, .skipChildren))).overlay
        (file.sortedReplacements.map fun entry => (entry.1, .replace entry.2))).get = file.ruleFor := by
  funext kind
  simp only [Rules.overlay, base_get, lastFor_map, lastFor_const, sortedReplacements, lastFor_mergeSort]
  rw [ruleFor]
  -- The layer that was laid last is looked at first.
  cases lastFor kind.name file.replace with
  | some text => rfl
  | none =>
    by_cases hchildren : kind.name ∈ file.skipChildren
    · simp [hchildren]
    · by_cases hskip : kind.name ∈ file.skip
      · simp [hchildren, hskip]
      · simp [hchildren, hskip]

/-- A file has rules exactly when all its names are known, and then each kind has the rule that the file
gives it. -/
theorem rules_eq_ok_iff (file : SettingsFile) (rules : Rules) :
    file.rules = .ok rules ↔
      (∀ name ∈ file.skip, Known name) ∧ (∀ name ∈ file.skipChildren, Known name) ∧
        (∀ entry ∈ file.replace, Known entry.1) ∧ rules.get = file.ruleFor := by
  have hsorted : (∀ entry ∈ file.sortedReplacements, Known entry.1) ↔
      ∀ entry ∈ file.replace, Known entry.1 := by
    simp only [sortedReplacements, List.mem_mergeSort]
  simp only [SettingsFile.rules, bind_eq_ok_iff, Rules.setAll_eq_ok_iff, Rules.replaceAll_eq_ok_iff, hsorted,
    ← file.get_overlays, ← Rules.ext_iff]
  constructor
  · rintro ⟨_, ⟨hskip, rfl⟩, _, ⟨hchildren, rfl⟩, hreplace, hrules⟩
    exact ⟨hskip, hchildren, hreplace, hrules⟩
  · rintro ⟨hskip, hchildren, hreplace, hrules⟩
    exact ⟨_, ⟨hskip, rfl⟩, _, ⟨hchildren, rfl⟩, hreplace, hrules⟩

/-- A file has settings exactly when it is accepted, and then each kind has the rule that the file gives
it. -/
theorem settings_eq_ok_iff (file : SettingsFile) (settings : Settings) :
    file.settings = .ok settings ↔
      file.Accepted ∧ settings.rules.get = file.ruleFor ∧
        settings.previewWidth = file.previewWidth.getD 100 := by
  have hwidth (rules : Rules) :
      ((if file.previewWidth.getD Host.previewWidth < leastWidth then
          .error (.narrow (file.previewWidth.getD Host.previewWidth))
        else return ⟨rules, file.previewWidth.getD Host.previewWidth⟩ :
          Except SettingsFault Settings) = .ok settings) ↔
        4 ≤ file.previewWidth.getD 100 ∧ rules = settings.rules ∧
          settings.previewWidth = file.previewWidth.getD 100 := by
    obtain ⟨shown, width⟩ := settings
    change ((if file.previewWidth.getD 100 < 4 then _ else _) = _) ↔ _
    split
    · next hnarrow => simp [Nat.not_le.mpr hnarrow]
    · next hwide => simp [pure, Except.pure, Nat.le_of_not_lt hwide, Host.previewWidth, eq_comm]
  simp only [SettingsFile.settings, bind_eq_ok_iff, rules_eq_ok_iff, hwidth]
  constructor
  · rintro ⟨_, ⟨hskip, hchildren, hreplace, hrules⟩, hleast, rfl, hshown⟩
    exact ⟨⟨hskip, hchildren, hreplace, hleast⟩, hrules, hshown⟩
  · rintro ⟨haccepted, hrules, hshown⟩
    exact ⟨_, ⟨haccepted.skip, haccepted.skipChildren, haccepted.replace, hrules⟩, haccepted.width, rfl, hshown⟩

/-- Without a file the standard settings hold, which are those of an empty one. -/
theorem settings_empty : ({} : SettingsFile).settings = .ok Settings.standard := by
  decide +kernel

end SettingsFile

namespace Rules

/-- The rules below those of the command line: those of the settings file, if there is one, or else the
standard ones, unless the defaults are turned off. -/
def underlay (defaults : Bool) (file : Option SettingsFile) : Except SettingsFault Rules :=
  if defaults then Settings.rules <$> file.elim (.ok Settings.standard) SettingsFile.settings
  else .ok Rules.empty

/-- The rules of a summary. -/
def layered (defaults : Bool) (file : Option SettingsFile) (skip replace : List String) :
    Except SettingsFault Rules := do
  let base ← underlay defaults file
  base.override skip replace

/-- Whether no option gives a text for a kind. -/
def Ungiven (kind : Kind) (options : List String) : Prop :=
  ∀ given ∈ options, ∀ text, ¬ Gives given (kind.name, text)

/-- Whether the last option that gives a text for a kind gives this one. -/
inductive LastGives (kind : Kind) (text : String) : List String → Prop where
  | here {given : String} {later : List String} (hgives : Gives given (kind.name, text))
      (hlater : Ungiven kind later) : LastGives kind text (given :: later)
  | later {given : String} {later : List String} (h : LastGives kind text later) :
      LastGives kind text (given :: later)

variable (defaults : Bool) (file : Option SettingsFile) (skip replace : List String)

/-- The rule of a kind below those of the command line. -/
def baseRule (kind : Kind) : Option Modification :=
  if defaults then (file.getD {}).ruleFor kind else none

/-- Whether a rule is the one in force for a kind: that of the last replacement which the command line
gives it, else that of the kinds skipped there, else the one below them. -/
def InForce (kind : Kind) (rule : Option Modification) : Prop :=
  (∃ text, LastGives kind text replace ∧ rule = some (.replace text)) ∨
    Ungiven kind replace ∧
      rule = if kind.name ∈ skip then some .skipAll else baseRule defaults file kind

/-- Whether all layers can be laid: the settings file is accepted if it is asked for, the skipped names are
known, and every option for a replacement gives a known name and a text. -/
@[mk_iff]
structure Layable : Prop where
  file : defaults = true → ∀ settings ∈ file, settings.Accepted
  skip : ∀ name ∈ skip, Known name
  replace : ∀ given ∈ replace, ∃ kind : Kind, ∃ text, Gives given (kind.name, text)

/-- An option gives one name and one text at most. -/
theorem Gives.unique {given : String} {entry entry' : String × String} (h : Gives given entry)
    (h' : Gives given entry') : entry = entry' := by
  rw [← readReplacement_eq_ok_iff] at h h'
  exact Except.ok.inj (h.symm.trans h')

section Options

variable {options : List String} {entries : List (String × String)}

/-- An option that gives an entry gives no text for a kind exactly when the entry has another name. -/
theorem ungiven_cons_iff {kind : Kind} {given : String} {entry : String × String}
    (hgives : Gives given entry) :
    Ungiven kind (given :: options) ↔ entry.1 ≠ kind.name ∧ Ungiven kind options := by
  rw [Ungiven, List.forall_mem_cons]
  refine and_congr_left fun _ => ⟨fun h hname => ?_, fun h text hgiven => ?_⟩
  · exact h entry.2 (hname ▸ hgives)
  · exact h (congrArg Prod.fst (hgives.unique hgiven))

/-- The options give no text for a kind exactly when no entry has its name. -/
theorem ungiven_iff (kind : Kind) (hentries : List.Forall₂ Gives options entries) :
    Ungiven kind options ↔ lastFor kind.name entries = none := by
  induction hentries with
  | nil => simp [Ungiven, lastFor]
  | cons hgives _ ih =>
    rw [ungiven_cons_iff hgives, ih, lastFor, Option.or_eq_none_iff, and_comm]
    refine and_congr_right fun _ => ?_
    split
    · next hname => simp [hname]
    · next hname => simp [hname]

/-- The last option for a kind gives the text of the last entry under its name. -/
theorem lastGives_iff (kind : Kind) (text : String) (hentries : List.Forall₂ Gives options entries) :
    LastGives kind text options ↔ lastFor kind.name entries = some text := by
  induction hentries with
  | nil =>
    constructor
    · intro h
      cases h
    · intro h
      cases h
  | @cons given entry options entries hgives hentries ih =>
    -- The first option counts only where none behind it gives the kind a text.
    have hungiven := ungiven_iff kind hentries
    rw [lastFor, Option.or_eq_some_iff, ← ih, ← hungiven]
    constructor
    · intro h
      cases h with
      | here hfirst hlater =>
        obtain rfl := hgives.unique hfirst
        exact Or.inr ⟨hlater, if_pos rfl⟩
      | later hrest => exact Or.inl hrest
    · rintro (hrest | ⟨hlater, hentry⟩)
      · exact .later hrest
      · split at hentry
        · next hname =>
          refine .here ?_ hlater
          rw [← hname, ← Option.some.inj hentry]
          exact hgives
        · contradiction

/-- The options give known names exactly when they give some entries and the names of these are known. -/
theorem exists_entries_iff :
    (∃ entries, List.Forall₂ Gives options entries ∧ ∀ entry ∈ entries, Known entry.1) ↔
      ∀ given ∈ options, ∃ kind : Kind, ∃ text, Gives given (kind.name, text) := by
  induction options with
  | nil => simp
  | cons given options ih =>
    rw [List.forall_mem_cons, ← ih]
    constructor
    · rintro ⟨entries, hentries, hknown⟩
      obtain ⟨entry, rest, hgives, hrest, rfl⟩ := List.forall₂_cons_left_iff.mp hentries
      obtain ⟨⟨kind, hkind⟩, hothers⟩ := List.forall_mem_cons.mp hknown
      refine ⟨⟨kind, entry.2, ?_⟩, rest, hrest, hothers⟩
      rw [hkind]
      exact hgives
    · rintro ⟨⟨kind, text, hgives⟩, rest, hrest, hothers⟩
      exact ⟨_, hrest.cons hgives, List.forall_mem_cons.mpr ⟨⟨kind, rfl⟩, hothers⟩⟩

end Options

/-- Settings have rules exactly when they are there. -/
theorem map_rules_eq_ok_iff {ε : Type} (settings : Except ε Settings) (base : Rules) :
    Settings.rules <$> settings = .ok base ↔ ∃ found, settings = .ok found ∧ found.rules = base := by
  cases settings with
  | error fault => simp [Functor.map, Except.map]
  | ok found => simp [Functor.map, Except.map]

/-- The rules below those of the command line are there exactly when the settings file is accepted or not
asked for. -/
theorem underlay_eq_ok_iff (base : Rules) :
    underlay defaults file = .ok base ↔
      (defaults = true → ∀ settings ∈ file, settings.Accepted) ∧ base.get = baseRule defaults file := by
  cases defaults with
  | false => simp [underlay, baseRule, Rules.ext_iff, Rules.empty, funext_iff, eq_comm]
  | true =>
    have hsettings : file.elim (.ok Settings.standard) SettingsFile.settings = (file.getD {}).settings := by
      cases file with
      | none => exact SettingsFile.settings_empty.symm
      | some settings => rfl
    rw [underlay, if_pos rfl, hsettings, map_rules_eq_ok_iff]
    constructor
    · rintro ⟨settings, hread, rfl⟩
      obtain ⟨haccepted, hget, -⟩ := (SettingsFile.settings_eq_ok_iff _ _).mp hread
      refine ⟨fun _ found hfound => ?_, hget⟩
      rw [Option.mem_def.mp hfound] at haccepted
      exact haccepted
    · rintro ⟨hfile, hget⟩
      have haccepted : (file.getD {}).Accepted := by
        cases file with
        | none => exact ((SettingsFile.settings_eq_ok_iff _ _).mp SettingsFile.settings_empty).1
        | some found => exact hfile rfl found rfl
      exact ⟨⟨base, _⟩, (SettingsFile.settings_eq_ok_iff _ _).mpr ⟨haccepted, hget, rfl⟩, rfl⟩

/-- The rules of the command line are laid over others exactly when the names in it are known. -/
theorem override_eq_ok_iff (base rules : Rules) :
    base.override skip replace = .ok rules ↔
      (∀ name ∈ skip, Known name) ∧ ∃ entries, List.Forall₂ Gives replace entries ∧
        (∀ entry ∈ entries, Known entry.1) ∧
        rules = (base.overlay (skip.map fun name => (name, .skipAll))).overlay
          (entries.map fun entry => (entry.1, .replace entry.2)) := by
  simp only [override, bind_eq_ok_iff, setAll_eq_ok_iff, replaceGiven_eq_ok_iff]
  constructor
  · rintro ⟨_, ⟨hskip, rfl⟩, hreplace⟩
    exact ⟨hskip, hreplace⟩
  · rintro ⟨hskip, hreplace⟩
    exact ⟨_, ⟨hskip, rfl⟩, hreplace⟩

/-- The rule in force for a kind is the one that it has once all layers are laid. -/
theorem inForce_iff {base : Rules} (hbase : base.get = baseRule defaults file)
    {entries : List (String × String)} (hentries : List.Forall₂ Gives replace entries) (kind : Kind)
    (rule : Option Modification) :
    InForce defaults file skip replace kind rule ↔
      rule = ((base.overlay (skip.map fun name => (name, .skipAll))).overlay
        (entries.map fun entry => (entry.1, .replace entry.2))).get kind := by
  rw [InForce, ungiven_iff kind hentries]
  simp only [lastGives_iff kind _ hentries, overlay, lastFor_map, lastFor_const, hbase]
  cases lastFor kind.name entries with
  | some text => simp
  | none =>
    by_cases hskip : kind.name ∈ skip
    · simp [hskip]
    · simp [hskip]

/-- Layers that can be laid give rules. -/
theorem exists_layered (hlayable : Layable defaults file skip replace) :
    ∃ rules, layered defaults file skip replace = .ok rules := by
  obtain ⟨entries, hentries, hknown⟩ := exists_entries_iff.mpr hlayable.replace
  simp only [layered, bind_eq_ok_iff, underlay_eq_ok_iff, override_eq_ok_iff]
  exact ⟨_, ⟨baseRule defaults file⟩, ⟨hlayable.file, rfl⟩, hlayable.skip, entries, hentries, hknown, rfl⟩

/-- Rules come of the layers exactly when these can be laid and the rule of each kind is the one in force
for it. -/
theorem layered_eq_ok_iff (rules : Rules) :
    layered defaults file skip replace = .ok rules ↔
      Layable defaults file skip replace ∧
        ∀ kind rule, rules.get kind = rule ↔ InForce defaults file skip replace kind rule := by
  simp only [layered, bind_eq_ok_iff, underlay_eq_ok_iff, override_eq_ok_iff]
  constructor
  · rintro ⟨base, ⟨hfile, hbase⟩, hskip, entries, hentries, hknown, rfl⟩
    refine ⟨⟨hfile, hskip, exists_entries_iff.mp ⟨entries, hentries, hknown⟩⟩, fun kind rule => ?_⟩
    rw [inForce_iff defaults file skip replace hbase hentries, eq_comm]
  · rintro ⟨hlayable, hforce⟩
    obtain ⟨entries, hentries, hknown⟩ := exists_entries_iff.mpr hlayable.replace
    refine ⟨⟨baseRule defaults file⟩, ⟨hlayable.file, rfl⟩, hlayable.skip, entries, hentries, hknown, ?_⟩
    refine Rules.ext (funext fun kind => ?_)
    rw [← inForce_iff defaults file skip replace rfl hentries]
    exact (hforce kind _).mp rfl

/-- Rearranged lists of kinds make no difference to what is accepted or to the rules that come of it. -/
theorem layered_rearranged {file' : Option SettingsFile} {skip' : List String}
    (hfile : Option.Rel SettingsFile.Rearranged file file') (hskip : ∀ name, name ∈ skip' ↔ name ∈ skip)
    (rules : Rules) :
    layered defaults file' skip' replace = .ok rules ↔ layered defaults file skip replace = .ok rules := by
  have haccepted : (∀ settings ∈ file', settings.Accepted) ↔ ∀ settings ∈ file, settings.Accepted := by
    cases hfile with
    | none => simp
    | some hsome => simp [hsome.accepted_iff]
  have hrule : baseRule defaults file' = baseRule defaults file := by
    cases hfile with
    | none => rfl
    | some hsome =>
      funext kind
      simp only [baseRule, Option.getD_some, hsome.ruleFor_eq]
  have hlayable : Layable defaults file' skip' replace ↔ Layable defaults file skip replace := by
    simp only [layable_iff, haccepted, hskip]
  simp only [layered_eq_ok_iff, hlayable, InForce, hrule, hskip]

end Rules

namespace Command

/-- Whether the search for the settings of a tree file ends without a file, or at a file with these
contents. -/
inductive Finds (files : FileAccess Id) (input : Path) : Option SettingsFile → Prop where
  | nothing (hfound : (Settings.find? files.isPresent (settingsStart input)).run = none) :
      Finds files input none
  | contents {path : Path} {text : String} {file : SettingsFile}
      (hfound : (Settings.find? files.isPresent (settingsStart input)).run = some path)
      (htext : (files.readText path).run = .ok text) (hread : SettingsFile.read text = .ok file) :
      Finds files input (some file)

variable {files : FileAccess Id} {input : Path} {file : Option SettingsFile}

/-- The search for settings, without its monad. -/
theorem run_settingsFor (files : FileAccess Id) (input : Path) :
    (settingsFor files input).run.run =
      match (Settings.find? files.isPresent (settingsStart input)).run with
      | none => .ok Settings.standard
      | some path =>
        match (Settings.load files path).run with
        | .ok settings => .ok settings
        | .error (.unreadable name reason) =>
          .error (errorLine (SettingsFault.unreadable name reason).diagnostic.message)
        | .error fault => .error (fault.diagnostic.render (toString path)) := rfl

/-- The settings for a tree file are those of the settings file that is found. -/
theorem run_settingsFor_eq_ok_iff (hfinds : Finds files input file) (settings : Settings) :
    (settingsFor files input).run.run = .ok settings ↔
      file.elim (.ok Settings.standard) SettingsFile.settings = .ok settings := by
  rw [run_settingsFor]
  cases hfinds with
  | nothing hfound =>
    rw [hfound]
    simp only [Option.elim_none, Except.ok.injEq]
  | @contents path text file hfound htext hread =>
    have hload : (Settings.load files path).run = file.settings := by
      have hanswer : files.readText path = .ok text := htext
      rw [Settings.load, hanswer]
      change Settings.parse text = file.settings
      rw [Settings.parse, hread]
      rfl
    rw [hfound, Option.elim_some]
    dsimp only
    rw [hload]
    cases file.settings with
    | ok found => simp only [Except.ok.injEq]
    | error fault => cases fault <;> simp only [reduceCtorEq]

/-- The rules of the command line are laid over others where they can be. -/
theorem run_overridden_eq_ok_iff (base rules : Rules) (skip replace : List String) :
    (overridden base skip replace : ExceptT String Id Rules).run.run = .ok rules ↔
      base.override skip replace = .ok rules := by
  rw [overridden]
  cases base.override skip replace with
  | ok result =>
    change Except.ok result = _ ↔ _
    simp only [Except.ok.injEq]
  | error fault =>
    change Except.error _ = _ ↔ _
    simp only [reduceCtorEq]

/-- A command goes by the layered rules. -/
theorem run_rulesFor_eq_ok_iff (hfinds : Finds files input file) (skip replace : List String)
    (defaults : Bool) (rules : Rules) :
    (rulesFor files input skip replace defaults).run.run = .ok rules ↔
      Rules.layered defaults file skip replace = .ok rules := by
  have hsettings := run_settingsFor_eq_ok_iff hfinds
  cases defaults with
  | false => exact run_overridden_eq_ok_iff Rules.empty rules skip replace
  | true =>
    simp only [Rules.layered, Rules.underlay, rulesFor, if_true]
    cases hrun : (settingsFor files input).run.run with
    | ok settings =>
      have hfor : settingsFor files input = ExceptT.mk (.ok settings) := hrun
      rw [hfor, (hsettings settings).mp hrun]
      exact run_overridden_eq_ok_iff settings.rules rules skip replace
    | error messages =>
      have hfor : settingsFor files input = ExceptT.mk (.error messages) := hrun
      rw [hfor]
      cases hfile : file.elim (.ok Settings.standard) SettingsFile.settings with
      | ok settings =>
        rw [(hsettings settings).mpr hfile] at hrun
        cases hrun
      | error fault =>
        change Except.error messages = _ ↔ Except.error fault = _
        simp only [reduceCtorEq]

end Command

namespace Rules

/-- Rules come of all layers exactly when these can be laid, and then the rule of each kind is the one in
force for it; neither depends on the order and the repetition of names in a list of kinds, and a summary
that is asked for goes by these rules. -/
theorem layered_precedence (defaults : Bool) (file : Option SettingsFile) (skip replace : List String) :
    ((∃ rules, layered defaults file skip replace = .ok rules) ↔ Layable defaults file skip replace) ∧
      (∀ rules, layered defaults file skip replace = .ok rules → ∀ kind rule,
        rules.get kind = rule ↔ InForce defaults file skip replace kind rule) ∧
      (∀ file' skip', Option.Rel SettingsFile.Rearranged file file' →
        (∀ name, name ∈ skip' ↔ name ∈ skip) → ∀ rules,
          layered defaults file' skip' replace = .ok rules ↔
            layered defaults file skip replace = .ok rules) ∧
      ∀ files input, Command.Finds files input file → ∀ rules,
        (Command.rulesFor files input skip replace defaults).run.run = .ok rules ↔
          layered defaults file skip replace = .ok rules := by
  refine ⟨⟨?_, exists_layered defaults file skip replace⟩, ?_, ?_, ?_⟩
  · rintro ⟨rules, hrules⟩
    exact ((layered_eq_ok_iff defaults file skip replace rules).mp hrules).1
  · intro rules hrules
    exact ((layered_eq_ok_iff defaults file skip replace rules).mp hrules).2
  · intro file' skip' hfile hskip
    exact layered_rearranged defaults file skip replace hfile hskip
  · intro files input hfinds
    exact Command.run_rulesFor_eq_ok_iff hfinds skip replace defaults

/-- Four layers name one kind: its rule is that of the last option, whatever the order of the skipped kinds
in the settings file. -/
theorem layered_precedence_overlapping :
    let text := "[summary]\nskip = ['Block', 'Block', 'Identifier']\n[summary.replace]\nBlock = 'file'\n"
    let files : FileAccess Id := ⟨fun _ => .ok text, fun _ => true, fun _ => .ok (), fun _ _ => .ok ()⟩
    let file : SettingsFile := { skip := ["Block", "Block", "Identifier"], replace := [("Block", "file")] }
    let file' : SettingsFile := { skip := ["Identifier", "Block"], replace := [("Block", "file")] }
    let replace := ["Block=first", " Block =last="]
    ∃ rules, layered true (some file) ["Block"] replace = .ok rules ∧
      rules.get .block = some (.replace "last=") ∧
      layered true (some file') ["Block", "Block"] replace = .ok rules ∧
      (Command.rulesFor files (Path.ofString "tree.json") ["Block"] replace true).run.run = .ok rules := by
  intro text files file file' replace
  obtain ⟨hexists, hforce, hrearranged, hrun⟩ := layered_precedence true (some file) ["Block"] replace
  have hblock : Known "Block" := ⟨.block, rfl⟩
  have hidentifier : Known "Identifier" := ⟨.identifier, rfl⟩
  have hfirst : Gives "Block=first" ("Block", "first") :=
    (readReplacement_eq_ok_iff _ _).mp (by decide +kernel)
  have hlast : Gives " Block =last=" ("Block", "last=") :=
    (readReplacement_eq_ok_iff _ _).mp (by decide +kernel)
  have haccepted : file.Accepted :=
    ⟨by simp [file, hblock, hidentifier], by simp [file], by simp [file, hblock], by decide⟩
  obtain ⟨rules, hrules⟩ := hexists.mpr
    ⟨fun _ _ hfile => Option.some.inj hfile ▸ haccepted, by simp [hblock],
      by simpa [replace] using ⟨⟨.block, _, hfirst⟩, .block, _, hlast⟩⟩
  refine ⟨rules, hrules, ?_, ?_, ?_⟩
  · exact (hforce rules hrules .block _).mpr (.inl ⟨_, .later (.here hlast nofun), rfl⟩)
  · have hfile : SettingsFile.Rearranged file file' :=
      ⟨rfl, fun name => by simp [file, file', or_comm], fun _ => Iff.rfl, rfl, rfl⟩
    exact (hrearranged _ _ (.some hfile) (by simp) rules).mpr hrules
  · have hread : SettingsFile.read text = .ok file := by decide +kernel
    have hfound : (Settings.find? files.isPresent (Command.settingsStart (Path.ofString "tree.json"))).run =
        some (Path.ofString "./spanfmt.toml") := by
      decide +kernel
    exact (hrun files _ (.contents hfound rfl hread) rules).mpr hrules

end Rules

end Synopsis
