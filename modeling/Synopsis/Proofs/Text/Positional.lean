import Mathlib.Algebra.GroupWithZero.Nat
import Mathlib.Data.List.Forall2
import Mathlib.Data.Nat.Digits.Defs
import Mathlib.Tactic.Ring
import Synopsis.Proofs.Text.Numeral
import Synopsis.Text.Blank

/-!
# Positional numerals

A numeral is at most one plus sign with digits behind it, of which there is at least one. Each digit counts
its value times the power of the radix that belongs to its place, so zeros in front make no difference.
Reading goes from left to right and gives up as soon as the number so far does not fit. More digits never
make a number smaller, so exactly the numerals for numbers that fit are read.
-/

namespace Synopsis.Text

/-- Whether a character is a digit with a value: the sign for the value, be it a small or a capital one. -/
def IsDigit (radix : Nat) (c : Char) (value : Nat) : Prop :=
  value < radix ∧ (c = value.digitChar ∨ c = value.digitChar.toUpper)

/-- Whether digits denote a number by their values and their places. -/
def DigitsFor (radix : Nat) (digits : List Char) (n : Nat) : Prop :=
  ∃ values, List.Forall₂ (IsDigit radix) digits values ∧ n = Nat.ofDigits radix values.reverse

/-- Whether a text is a numeral for a number. -/
def IsNumeral (radix : Nat) (text : List Char) (n : Nat) : Prop :=
  ∃ digits, (text = digits ∨ text = '+' :: digits) ∧ digits ≠ [] ∧ DigitsFor radix digits n

/-- A digit in front belongs to the number that stands before it. -/
theorem ofDigits_reverse_cons_add (radix number value : Nat) (values : List Nat) :
    Nat.ofDigits radix (value :: values).reverse + radix ^ (value :: values).length * number =
      Nat.ofDigits radix values.reverse + radix ^ values.length * (number * radix + value) := by
  rw [List.reverse_cons, Nat.ofDigits_append, Nat.ofDigits_singleton, List.length_reverse,
    List.length_cons]
  ring

/-- What is read as a digit is one of the ten figures or a letter of either case. -/
theorem code_of_digitValue? {radix value : Nat} {c : Char} (h : digitValue? radix c = some value) :
    value < radix ∧ (c.toNat = 48 + value ∧ value < 10 ∨ c.toNat + 10 = 97 + value ∧ 10 ≤ value ∨
      c.toNat + 10 = 65 + value ∧ 10 ≤ value) := by
  obtain ⟨hvalue, hlt⟩ := Option.filter_eq_some_iff.mp h
  refine ⟨by simpa using hlt, ?_⟩
  simp only [Char.le_def, UInt32.le_iff_toNat_le] at hvalue
  change (if 48 ≤ c.toNat ∧ c.toNat ≤ 57 then some (c.toNat - 48)
    else if 97 ≤ c.toNat ∧ c.toNat ≤ 122 then some (c.toNat - 97 + 10)
    else if 65 ≤ c.toNat ∧ c.toNat ≤ 90 then some (c.toNat - 65 + 10) else none) = some value at hvalue
  split at hvalue
  · obtain rfl := Option.some.inj hvalue
    omega
  · split at hvalue
    · obtain rfl := Option.some.inj hvalue
      omega
    · split at hvalue
      · obtain rfl := Option.some.inj hvalue
        omega
      · contradiction

/-- A numeral is made of digits, signs apart. -/
theorem IsNumeral.digit_of_mem {radix n : Nat} {text : List Char} (h : IsNumeral radix text n) {c : Char}
    (hc : c ∈ text) : c = '+' ∨ ∃ value, IsDigit radix c value := by
  obtain ⟨digits, htext, -, values, hvalues, -⟩ := h
  have hmem : c = '+' ∨ c ∈ digits := by
    rcases htext with rfl | rfl
    · exact .inr hc
    · exact List.mem_cons.mp hc
  refine hmem.imp_right fun hdigit => ?_
  clear htext hmem
  induction hvalues with
  | nil => contradiction
  | cons hvalue _ ih =>
    rcases List.mem_cons.mp hdigit with rfl | hrest
    · exact ⟨_, hvalue⟩
    · exact ih hrest

section Radix

variable {radix : Nat} (hradix : radix ≤ 16)
include hradix

/-- The characters that are read as digits are the digits. -/
theorem digitValue?_eq_some_iff {c : Char} {value : Nat} :
    digitValue? radix c = some value ↔ IsDigit radix c value := by
  constructor
  · intro h
    have hfigure : ∀ value < 10, Char.ofNat (48 + value) = value.digitChar := by decide
    have hsmall : ∀ value < 6, Char.ofNat (97 + value) = (value + 10).digitChar := by decide
    have hcapital : ∀ value < 6, Char.ofNat (65 + value) = (value + 10).digitChar.toUpper := by decide
    obtain ⟨hlt, ⟨hcode, hten⟩ | ⟨hcode, hten⟩ | ⟨hcode, hten⟩⟩ := code_of_digitValue? h
    · refine ⟨hlt, .inl ?_⟩
      rw [← hfigure value hten, ← hcode, Char.ofNat_toNat]
    · obtain ⟨rest, rfl⟩ := Nat.exists_eq_add_of_le' hten
      refine ⟨hlt, .inl ?_⟩
      rw [← hsmall rest (by omega), ← Char.ofNat_toNat c]
      congr 1
      omega
    · obtain ⟨rest, rfl⟩ := Nat.exists_eq_add_of_le' hten
      refine ⟨hlt, .inr ?_⟩
      rw [← hcapital rest (by omega), ← Char.ofNat_toNat c]
      congr 1
      omega
  · rintro ⟨hlt, rfl | rfl⟩
    · exact digitValue?_digitChar hradix hlt
    · have hsixteen : ∀ value < 16, digitValue? 16 value.digitChar.toUpper = some value := by decide
      exact digitValue?_of_sixteen (hsixteen value (by omega)) hlt

/-- A digit is one of the ten figures or a letter of either case. -/
theorem IsDigit.code {c : Char} {value : Nat} (h : IsDigit radix c value) :
    value < radix ∧ (c.toNat = 48 + value ∧ value < 10 ∨ c.toNat + 10 = 97 + value ∧ 10 ≤ value ∨
      c.toNat + 10 = 65 + value ∧ 10 ≤ value) :=
  code_of_digitValue? ((digitValue?_eq_some_iff hradix).mpr h)

/-- Digits are read behind a number exactly when the number that they denote together with it fits, unless
there are no digits at all. -/
theorem readDigits_eq_ok_iff (limit number n : Nat) (digits : List Char) :
    readDigits radix limit number digits = .ok n ↔
      (digits = [] ∨ n < limit) ∧ ∃ values, List.Forall₂ (IsDigit radix) digits values ∧
        n = Nat.ofDigits radix values.reverse + radix ^ values.length * number := by
  induction digits generalizing number with
  | nil => simp [readDigits, eq_comm]
  | cons c rest ih =>
    rw [readDigits]
    cases hdigit : digitValue? radix c with
    | none =>
      simp only [reduceCtorEq, false_iff]
      rintro ⟨-, values, hvalues, -⟩
      obtain ⟨value, -, hvalue, -⟩ := List.forall₂_cons_left_iff.mp hvalues
      rw [(digitValue?_eq_some_iff hradix).mpr hvalue] at hdigit
      contradiction
    | some digit =>
      have hc : IsDigit radix c digit := (digitValue?_eq_some_iff hradix).mp hdigit
      simp only
      constructor
      · intro h
        split at h
        · next hfits =>
          obtain ⟨hn, values, hvalues, rfl⟩ := (ih _).mp h
          refine ⟨.inr ?_, digit :: values, .cons hc hvalues, (ofDigits_reverse_cons_add ..).symm⟩
          rcases hn with rfl | hn
          · obtain rfl := List.forall₂_nil_left_iff.mp hvalues
            simpa using hfits
          · exact hn
        · contradiction
      · rintro ⟨hn, values, hvalues, hsum⟩
        obtain ⟨value, others, hvalue, hothers, rfl⟩ := List.forall₂_cons_left_iff.mp hvalues
        obtain rfl : digit = value := by
          rw [(digitValue?_eq_some_iff hradix).mpr hvalue] at hdigit
          exact (Option.some.inj hdigit).symm
        have hlt := hn.resolve_left (List.cons_ne_nil c rest)
        rw [ofDigits_reverse_cons_add] at hsum
        -- The number so far is no greater than the whole, so it fits as well.
        have hpower : 0 < radix ^ others.length := Nat.pow_pos (Nat.zero_lt_of_lt hc.1)
        have hle : number * radix + digit ≤ radix ^ others.length * (number * radix + digit) :=
          Nat.le_mul_of_pos_left _ hpower
        rw [if_pos (by omega), ih]
        exact ⟨.inr hlt, others, hothers, hsum⟩

/-- Digits are read exactly when there is one at least and the number that they denote fits. -/
theorem readDigits_zero_eq_ok_iff {limit n : Nat} {digits : List Char} (hne : digits ≠ []) :
    readDigits radix limit 0 digits = .ok n ↔ DigitsFor radix digits n ∧ n < limit := by
  simp [readDigits_eq_ok_iff hradix, DigitsFor, hne, and_comm]

/-- A sign is no digit. -/
theorem not_digitsFor_plus {n : Nat} (rest : List Char) : ¬ DigitsFor radix ('+' :: rest) n := by
  rintro ⟨values, hvalues, -⟩
  obtain ⟨value, -, hvalue, -⟩ := List.forall₂_cons_left_iff.mp hvalues
  have hcode := hvalue.code hradix
  simp at hcode
  omega

/-- Behind a sign there are digits. -/
theorem isNumeral_plus_iff {n : Nat} (rest : List Char) :
    IsNumeral radix ('+' :: rest) n ↔ rest ≠ [] ∧ DigitsFor radix rest n := by
  constructor
  · rintro ⟨digits, rfl | heq, hne, hdigits⟩
    · exact absurd hdigits (not_digitsFor_plus hradix rest)
    · obtain rfl := (List.cons.inj heq).2
      exact ⟨hne, hdigits⟩
  · rintro ⟨hne, hdigits⟩
    exact ⟨rest, .inr rfl, hne, hdigits⟩

/-- A text is read as a number exactly when it is a numeral for it and the number fits. -/
theorem readNumeral_eq_ok_iff (limit n : Nat) (text : List Char) :
    readNumeral radix limit text = .ok n ↔ IsNumeral radix text n ∧ n < limit := by
  rw [readNumeral.eq_def]
  split
  · simp [IsNumeral]
  · simp [isNumeral_plus_iff hradix]
  · next digits hsome =>
    have hne : digits ≠ [] := hsome
    rw [readDigits_zero_eq_ok_iff hradix hne, isNumeral_plus_iff hradix, and_iff_right hne]
  · next hempty hsign hplus =>
    have hne : text ≠ [] := hempty
    rw [readDigits_zero_eq_ok_iff hradix hne]
    refine and_congr_left fun _ => ⟨fun hdigits => ⟨text, .inl rfl, hne, hdigits⟩, ?_⟩
    rintro ⟨digits, rfl | rfl, -, hdigits⟩
    · exact hdigits
    · exact absurd rfl (hplus digits)

/-- A numeral denotes one number. -/
theorem IsNumeral.unique {n k : Nat} {text : List Char} (h : IsNumeral radix text n)
    (h' : IsNumeral radix text k) : n = k := by
  have hn := (readNumeral_eq_ok_iff hradix (n + k + 1) n text).mpr ⟨h, by omega⟩
  have hk := (readNumeral_eq_ok_iff hradix (n + k + 1) k text).mpr ⟨h', by omega⟩
  rw [hn] at hk
  exact Except.ok.inj hk

/-- No blank stands in a numeral. -/
theorem IsNumeral.not_blank {n : Nat} {text : List Char} (h : IsNumeral radix text n) :
    ∀ c ∈ text, isBlank c = false := by
  intro c hc
  rcases h.digit_of_mem hc with rfl | ⟨value, hvalue⟩
  · decide
  · have hcode := hvalue.code hradix
    simp only [isBlank, Bool.or_eq_false_iff, Bool.and_eq_false_iff, decide_eq_false_iff_not,
      beq_eq_false_iff_ne]
    omega

/-- The digits of a number are a numeral for it. -/
theorem isNumeral_toDigits (hpos : 1 < radix) (n : Nat) : IsNumeral radix (Nat.toDigits radix n) n := by
  have hread := readDigits_toDigits hpos hradix (Nat.lt_succ_self n)
  exact ⟨_, .inl rfl, Nat.toDigits_ne_nil,
    ((readDigits_zero_eq_ok_iff hradix Nat.toDigits_ne_nil).mp hread).1⟩

end Radix

/-- What is written for a number is a decimal numeral for it. -/
theorem isNumeral_toString (n : Nat) : IsNumeral 10 (toString n).toList n := by
  have htext : (toString n).toList = Nat.toDigits 10 n := Nat.toList_repr
  rw [htext]
  exact isNumeral_toDigits (by decide) (by decide) n

end Synopsis.Text
