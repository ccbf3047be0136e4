import Mathlib.Data.List.Forall2
import Mathlib.Data.List.TakeWhile
import Mathlib.Data.Option.Basic
import Synopsis.Settings.Reading
import Synopsis.Proofs.Kind
import Synopsis.Proofs.Outcome

/-!
# Layers of rules

Summary rules come from six layers: the built-in rules, the skipped kinds, the kinds with skipped
children and the replacements of a settings file, and the skipped kinds and the replacements of a command
line. Each layer is a list of assignments that is laid over the layers before it, and of two assignments
for one kind the later one counts. Laying them fails only at a name that is no kind's, at a replacement
without an equals sign and at a preview width that is too small, so success does not depend on the order
of the names in a list, and neither do the rules in force where all assignments of a list are alike.
-/

namespace Synopsis

/-- Whether a name is that of a kind. -/
def Known (name : String) : Prop := ∃ kind : Kind, kind.name = name

/-- The value of the last entry of a list under a name. -/
def lastFor {α : Type} (name : String) : List (String × α) → Option α
  | [] => none
  | entry :: rest => (lastFor name rest).or (if entry.1 = name then some entry.2 else none)

section LastFor

variable {α β : Type} (name : String)

/-- Values that are changed entry by entry are changed where they are looked up. -/
theorem lastFor_map (change : α → β) (entries : List (String × α)) :
    lastFor name (entries.map fun entry => (entry.1, change entry.2)) =
      (lastFor name entries).map change := by
  induction entries with
  | nil => rfl
  | cons entry rest ih =>
    rw [List.map_cons, lastFor, lastFor, ih, Option.map_or]
    split <;> rfl

/-- Where all values are the same, it only matters whether the name is there. -/
theorem lastFor_const (value : α) (names : List String) :
    lastFor name (names.map fun entry => (entry, value)) = if name ∈ names then some value else none := by
  induction names with
  | nil => rfl
  | cons first rest ih =>
    rw [List.map_cons, lastFor, ih]
    by_cases hrest : name ∈ rest
    · simp [hrest]
    · by_cases hfirst : first = name
      · simp [hrest, hfirst]
      · simp [hrest, hfirst, Ne.symm hfirst]

/-- Only the entries under the name matter. -/
theorem lastFor_filter (entries : List (String × α)) :
    lastFor name (entries.filter fun entry => entry.1 = name) = lastFor name entries := by
  induction entries with
  | nil => rfl
  | cons entry rest ih =>
    by_cases hname : entry.1 = name
    · simp [hname, lastFor, ih]
    · simp [hname, lastFor, ih]

/-- Sorting entries by their names leaves those under one name in their order. -/
theorem filter_mergeSort (entries : List (String × α)) :
    (entries.mergeSort fun left right => decide (left.1 ≤ right.1)).filter (fun entry => entry.1 = name) =
      entries.filter fun entry => entry.1 = name := by
  have hordered : (entries.filter fun entry => entry.1 = name).Pairwise
      fun left right => decide (left.1 ≤ right.1) = true := by
    refine List.pairwise_iff_forall_sublist.mpr fun {left right} hsub => ?_
    have hleft : left.1 = name := by simpa using List.of_mem_filter (hsub.subset List.mem_cons_self)
    have hright : right.1 = name := by
      simpa using List.of_mem_filter (hsub.subset (List.mem_cons_of_mem _ List.mem_cons_self))
    have hnames : left.1 = right.1 := hleft.trans hright.symm
    exact decide_eq_true (hnames ▸ String.le_refl left.1)
  have hsublist : (entries.filter fun entry => entry.1 = name).Sublist
      (entries.mergeSort fun left right => decide (left.1 ≤ right.1)) := by
    refine List.sublist_mergeSort ?_ ?_ hordered List.filter_sublist
    · intro first second third hfirst hsecond
      simp only [decide_eq_true_eq] at hfirst hsecond ⊢
      exact String.le_trans hfirst hsecond
    · intro left right
      simp only [Bool.or_eq_true, decide_eq_true_eq]
      exact String.le_total left.1 right.1
  have hkept := hsublist.filter fun entry => decide (entry.1 = name)
  have hperm := (List.mergeSort_perm entries fun left right => decide (left.1 ≤ right.1)).filter
    fun entry => decide (entry.1 = name)
  simp only [List.filter_filter, Bool.and_self] at hkept
  exact (hkept.eq_of_length hperm.length_eq.symm).symm

/-- Sorting entries by their names does not change which one is the last under a name. -/
theorem lastFor_mergeSort (entries : List (String × α)) :
    lastFor name (entries.mergeSort fun left right => decide (left.1 ≤ right.1)) =
      lastFor name entries := by
  rw [← lastFor_filter, filter_mergeSort, lastFor_filter]

end LastFor

/-- A name that stands in a place is read as the kind that has it. -/
theorem readKind_eq_ok_iff (name place : String) (kind : Kind) :
    readKind name place = .ok kind ↔ kind.name = name := by
  rw [readKind, ← Kind.ofName?_eq_some_iff]
  cases Kind.ofName? name <;> simp

namespace Rules

/-- Rules with assignments laid over them, of which the last for a name counts. -/
def overlay (rules : Rules) (assignments : List (String × Modification)) : Rules :=
  ⟨fun kind => (lastFor kind.name assignments).or (rules.get kind)⟩

/-- Nothing laid over rules leaves them alone. -/
theorem overlay_nil (rules : Rules) : rules.overlay [] = rules := rfl

/-- The first of some assignments is made below the others. -/
theorem overlay_cons (rules : Rules) (kind : Kind) (modification : Modification)
    (assignments : List (String × Modification)) :
    rules.overlay ((kind.name, modification) :: assignments) =
      (rules.set kind modification).overlay assignments := by
  refine Rules.ext (funext fun other => ?_)
  have hname : kind.name = other.name ↔ other = kind :=
    ⟨fun h => Kind.name_injective h.symm, fun h => h ▸ rfl⟩
  simp only [overlay, lastFor, set, hname, Option.or_assoc]
  split <;> rfl

/-- Making an assignment for a name and then others, which succeed under some condition, is laying all
of them over the rules. -/
theorem exists_set_overlay_iff (rules result : Rules) (name : String) (modification : Modification)
    (assignments : List (String × Modification)) (condition : Prop) :
    (∃ kind : Kind, kind.name = name ∧ condition ∧
        result = (rules.set kind modification).overlay assignments) ↔
      (Known name ∧ condition) ∧ result = rules.overlay ((name, modification) :: assignments) := by
  constructor
  · rintro ⟨kind, rfl, hcondition, rfl⟩
    exact ⟨⟨⟨kind, rfl⟩, hcondition⟩, (overlay_cons rules kind modification assignments).symm⟩
  · rintro ⟨⟨⟨kind, rfl⟩, hcondition⟩, rfl⟩
    exact ⟨kind, rfl, hcondition, overlay_cons rules kind modification assignments⟩

/-- One modification is set for all names of a list exactly when all of them are known. -/
theorem setAll_eq_ok_iff (rules result : Rules) (place : String) (modification : Modification)
    (names : List String) :
    rules.setAll place modification names = .ok result ↔
      (∀ name ∈ names, Known name) ∧
        result = rules.overlay (names.map fun name => (name, modification)) := by
  induction names generalizing rules with
  | nil => simp [setAll, overlay_nil, eq_comm]
  | cons name names ih =>
    rw [setAll, bind_eq_ok_iff, List.forall_mem_cons, List.map_cons, ← exists_set_overlay_iff]
    simp only [readKind_eq_ok_iff, ih]

/-- The replacements of a list are set exactly when all of its names are known. -/
theorem replaceAll_eq_ok_iff (rules result : Rules) (place : String) (entries : List (String × String)) :
    rules.replaceAll place entries = .ok result ↔
      (∀ entry ∈ entries, Known entry.1) ∧
        result = rules.overlay (entries.map fun entry => (entry.1, .replace entry.2)) := by
  induction entries generalizing rules with
  | nil => simp [replaceAll, overlay_nil, eq_comm]
  | cons entry entries ih =>
    rw [replaceAll, bind_eq_ok_iff, List.forall_mem_cons, List.map_cons, ← exists_set_overlay_iff]
    simp only [readKind_eq_ok_iff, ih]

/-- Whether an option gives a name and a text: they stand before and behind its first equals sign, the
name between blanks. -/
def Gives (given : String) (entry : String × String) : Prop :=
  ∃ before, given.toList = before ++ '=' :: entry.2.toList ∧ '=' ∉ before ∧
    entry.1.toList = Text.trim before

/-- An option is read exactly as the name and the text that it gives. -/
theorem readReplacement_eq_ok_iff (given : String) (entry : String × String) :
    readReplacement given = .ok entry ↔ Gives given entry := by
  constructor
  · intro h
    have hparts : given.toList.takeWhile (· ≠ '=') ++ given.toList.dropWhile (· ≠ '=') = given.toList :=
      List.takeWhile_append_dropWhile
    have hdrop : (given.toList.takeWhile (· ≠ '=') ++ given.toList.dropWhile (· ≠ '=')).drop
        (given.toList.takeWhile (· ≠ '=')).length = given.toList.dropWhile (· ≠ '=') := List.drop_left
    rw [hparts] at hdrop
    have hhead := List.head?_dropWhile_not (· ≠ '=') given.toList
    simp only [readReplacement, hdrop] at h
    split at h
    · contradiction
    · next sign text htext =>
      cases h
      rw [htext] at hhead hparts
      obtain rfl : sign = '=' := by simpa using hhead
      refine ⟨_, ?_, ?_, String.toList_ofList⟩
      · rw [String.toList_ofList, hparts]
      · intro hmem
        simpa using List.mem_takeWhile_imp hmem
  · rintro ⟨before, hgiven, hfirst, hname⟩
    have hbefore : given.toList.takeWhile (· ≠ '=') = before := by
      have hall : ∀ c ∈ before, decide (c ≠ '=') = true := by
        intro c hc
        rw [decide_eq_true_eq]
        rintro rfl
        exact hfirst hc
      rw [hgiven, List.takeWhile_append_of_pos hall, List.takeWhile_cons_of_neg (by simp), List.append_nil]
    have hdrop : given.toList.drop before.length = '=' :: entry.2.toList := by
      rw [hgiven]
      exact List.drop_left
    simp only [readReplacement, hbefore, hdrop, ← hname, String.ofList_toList]

/-- The replacements of a command line are set exactly when every option gives a name and a text, and
all names are known. -/
theorem replaceGiven_eq_ok_iff (rules result : Rules) (place : String) (options : List String) :
    rules.replaceGiven place options = .ok result ↔
      ∃ entries, List.Forall₂ Gives options entries ∧ (∀ entry ∈ entries, Known entry.1) ∧
        result = rules.overlay (entries.map fun entry => (entry.1, .replace entry.2)) := by
  induction options generalizing rules with
  | nil => simp [replaceGiven, overlay_nil, eq_comm]
  | cons given options ih =>
    have hstep : rules.replaceGiven place (given :: options) = .ok result ↔
        ∃ entry, Gives given entry ∧ ∃ kind : Kind, kind.name = entry.1 ∧
          (rules.set kind (.replace entry.2)).replaceGiven place options = .ok result := by
      simp only [replaceGiven, bind_eq_ok_iff, readReplacement_eq_ok_iff, readKind_eq_ok_iff]
    rw [hstep]
    constructor
    · rintro ⟨entry, hgives, kind, hkind, hrest⟩
      obtain ⟨entries, hoptions, hknown, rfl⟩ := (ih _).mp hrest
      refine ⟨entry :: entries, hoptions.cons hgives, ?_, ?_⟩
      · exact List.forall_mem_cons.mpr ⟨⟨kind, hkind⟩, hknown⟩
      · rw [List.map_cons, ← hkind, overlay_cons]
    · rintro ⟨entries, hoptions, hknown, rfl⟩
      obtain ⟨entry, rest, hgives, hrest, rfl⟩ := List.forall₂_cons_left_iff.mp hoptions
      obtain ⟨⟨kind, hkind⟩, hothers⟩ := List.forall_mem_cons.mp hknown
      refine ⟨entry, hgives, kind, hkind, (ih _).mpr ⟨rest, hrest, hothers, ?_⟩⟩
      rw [List.map_cons, ← hkind, overlay_cons]

end Rules

end Synopsis
