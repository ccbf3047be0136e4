import Mathlib.Data.List.Basic
import Synopsis.Rules
import Synopsis.Text.Blank

/-!
# Names of kinds

No two kinds have the same name, so a name that is read back gives its kind. The same holds of the names
of tags: an unknown tag is named with its number in brackets, which no kind's name has. No name of a tag
has a blank or a colon in it.
-/

namespace Synopsis.Kind

/-- The name of a kind is read as the kind. -/
theorem ofName?_name (kind : Kind) : ofName? kind.name = some kind := by
  have hall : ∀ kind ∈ all, ofName? kind.name = some kind := by decide +kernel
  exact hall kind kind.mem_all

/-- A name is read as the kind that has it. -/
theorem ofName?_eq_some_iff (name : String) (kind : Kind) :
    ofName? name = some kind ↔ kind.name = name := by
  constructor
  · intro h
    simpa using List.find?_some h
  · rintro rfl
    exact kind.ofName?_name

/-- Different kinds have different names. -/
theorem name_injective : Function.Injective name := by
  intro kind other h
  have hread := kind.ofName?_name
  rw [h, other.ofName?_name] at hread
  exact (Option.some.inj hread).symm

/-- The visible characters of ASCII are not blank. -/
theorem not_blank_of_visible {c : Char} (h : 33 ≤ c.toNat ∧ c.toNat ≤ 126) : Text.isBlank c = false := by
  simp only [Text.isBlank, Bool.or_eq_false_iff, Bool.and_eq_false_iff, decide_eq_false_iff_not,
    beq_eq_false_iff_ne]
  omega

/-- The name of a kind has no blanks, colons or brackets in it. -/
theorem plain_of_mem_name {kind : Kind} {c : Char} (h : c ∈ kind.name.toList) :
    Text.isBlank c = false ∧ c ≠ ':' ∧ c ≠ '(' := by
  have hletters : kind.name.toList.Forall fun c => 65 ≤ c.toNat ∧ c.toNat ≤ 122 := by
    cases kind <;> (rw [name, String.toList_ofList]; decide +kernel)
  have hletter := List.forall_iff_forall_mem.mp hletters c h
  refine ⟨not_blank_of_visible (by omega), ?_, ?_⟩
  · rintro rfl
    exact absurd hletter.1 (by decide)
  · rintro rfl
    exact absurd hletter.1 (by decide)

/-- The kind of a tag has the tag as its ordinal. -/
theorem ordinal_of_ofOrdinal? {tag : Nat} {kind : Kind} (h : ofOrdinal? tag = some kind) :
    kind.ordinal = tag := by
  have hordinals : all.map ordinal = List.range all.length := by decide +kernel
  obtain ⟨hlt, -⟩ := List.getElem?_eq_some_iff.mp h
  have hread : (all.map ordinal)[tag]? = some kind.ordinal := by
    rw [List.getElem?_map]
    exact congrArg (Option.map ordinal) h
  rw [hordinals, List.getElem?_range hlt] at hread
  exact (Option.some.inj hread).symm

/-- A tag that is no ordinal is named with its number. -/
theorem toList_tagName_of_none {tag : Nat} (h : ofOrdinal? tag = none) :
    (tagName tag).toList = "Unknown(".toList ++ Nat.toDigits 10 tag ++ ")".toList := by
  have hname : tagName tag = "Unknown(" ++ toString tag ++ ")" := by
    rw [tagName, h]
    rfl
  have hdigits : (toString tag).toList = Nat.toDigits 10 tag := by
    rw [Nat.toString_eq_ofList_toDigits, String.toList_ofList]
  rw [hname, String.toList_append, String.toList_append, hdigits]

/-- A tag that is an ordinal is named as its kind. -/
theorem tagName_of_some {tag : Nat} {kind : Kind} (h : ofOrdinal? tag = some kind) :
    tagName tag = kind.name := by
  rw [tagName, h]

/-- A decimal digit is neither a blank nor a colon. -/
theorem plain_of_isDigit {c : Char} (h : c.isDigit = true) : Text.isBlank c = false ∧ c ≠ ':' := by
  have hrange : 48 ≤ c.toNat ∧ c.toNat ≤ 57 := by
    simpa [Char.isDigit, UInt32.le_iff_toNat_le] using h
  refine ⟨not_blank_of_visible (by omega), ?_⟩
  rintro rfl
  exact absurd hrange.2 (by decide)

/-- The name of a tag has no blanks or colons in it. -/
theorem plain_of_mem_tagName {tag : Nat} {c : Char} (h : c ∈ (tagName tag).toList) :
    Text.isBlank c = false ∧ c ≠ ':' := by
  cases hkind : ofOrdinal? tag with
  | some kind =>
    rw [tagName_of_some hkind] at h
    obtain ⟨hblank, hcolon, -⟩ := plain_of_mem_name h
    exact ⟨hblank, hcolon⟩
  | none =>
    have hunknown : ∀ c ∈ "Unknown(".toList, Text.isBlank c = false ∧ c ≠ ':' :=
      List.forall_iff_forall_mem.mp (by decide)
    have hclosing : ∀ c ∈ ")".toList, Text.isBlank c = false ∧ c ≠ ':' :=
      List.forall_iff_forall_mem.mp (by decide)
    rw [toList_tagName_of_none hkind, List.mem_append, List.mem_append] at h
    rcases h with (h | h) | h
    · exact hunknown c h
    · exact plain_of_isDigit (Nat.isDigit_of_mem_toDigits (by decide) (by decide) h)
    · exact hclosing c h

/-- The name of an unknown tag is no name of a kind. -/
theorem tagName_ne_name {tag : Nat} (h : ofOrdinal? tag = none) (kind : Kind) :
    tagName tag ≠ kind.name := by
  intro hname
  have hbracket : '(' ∈ (tagName tag).toList := by
    rw [toList_tagName_of_none h]
    exact List.mem_append_left _ (List.mem_append_left _ (by decide))
  rw [hname] at hbracket
  exact (plain_of_mem_name hbracket).2.2 rfl

/-- Different tags have different names. -/
theorem tagName_injective : Function.Injective tagName := by
  intro tag other h
  cases htag : ofOrdinal? tag with
  | some kind =>
    cases hother : ofOrdinal? other with
    | some kind' =>
      have hsame : kind = kind' := by
        rw [tagName_of_some htag, tagName_of_some hother] at h
        exact name_injective h
      rw [← ordinal_of_ofOrdinal? htag, ← ordinal_of_ofOrdinal? hother, hsame]
    | none => exact absurd (h.symm.trans (tagName_of_some htag)) (tagName_ne_name hother kind)
  | none =>
    cases hother : ofOrdinal? other with
    | some kind => exact absurd (h.trans (tagName_of_some hother)) (tagName_ne_name htag kind)
    | none =>
      have hlists := congrArg String.toList h
      rw [toList_tagName_of_none htag, toList_tagName_of_none hother] at hlists
      have hdigits := List.append_cancel_left (List.append_cancel_right hlists)
      calc
        tag = Nat.ofDigitChars 10 (Nat.toDigits 10 tag) 0 := Nat.ofDigitChars_ten_toDigits.symm
        _ = Nat.ofDigitChars 10 (Nat.toDigits 10 other) 0 := by rw [hdigits]
        _ = other := Nat.ofDigitChars_ten_toDigits

end Synopsis.Kind
