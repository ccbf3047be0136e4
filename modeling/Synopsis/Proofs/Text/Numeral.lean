import Synopsis.Text.Numeral

/-!
# Numerals are read back

The digits of a number in a radix of at most sixteen denote that number when they are read from left to
right: all digits but the last denote the quotient by the radix, and the last adds the remainder. So no
two numbers have the same digits.
-/

namespace Synopsis.Text

/-- A hexadecimal digit is one in every radix for which its value is small enough. -/
theorem digitValue?_of_sixteen {radix digit : Nat} {c : Char} (hdigit : digitValue? 16 c = some digit)
    (h : digit < radix) : digitValue? radix c = some digit := by
  rw [digitValue?, Option.filter_eq_some_iff] at hdigit ⊢
  exact ⟨hdigit.1, by simpa using h⟩

/-- A digit is read as the value for which it is written. -/
theorem digitValue?_digitChar {radix digit : Nat} (hradix : radix ≤ 16) (h : digit < radix) :
    digitValue? radix digit.digitChar = some digit := by
  have hsixteen : ∀ digit < 16, digitValue? 16 (Nat.digitChar digit) = some digit := by decide
  exact digitValue?_of_sixteen (hsixteen digit (by omega)) h

/-- Digits behind others extend the number that those denote. -/
theorem readDigits_append (radix limit value : Nat) (left right : List Char) :
    readDigits radix limit value (left ++ right) =
      readDigits radix limit value left >>= fun next => readDigits radix limit next right := by
  induction left generalizing value with
  | nil => rfl
  | cons c left ih =>
    rw [List.cons_append, readDigits, readDigits]
    cases digitValue? radix c with
    | none => rfl
    | some digit =>
      simp only
      split
      · exact ih _
      · rfl

/-- One more digit multiplies by the radix and adds its value. -/
theorem readDigits_digitChar {radix limit value digit : Nat} (hradix : radix ≤ 16)
    (hdigit : digit < radix) (h : value * radix + digit < limit) :
    readDigits radix limit value [digit.digitChar] = .ok (value * radix + digit) := by
  simp only [readDigits, digitValue?_digitChar hradix hdigit, if_pos h]

section Radix

variable {radix : Nat} (hpos : 1 < radix) (hradix : radix ≤ 16)
include hpos hradix

/-- The digits of a number are read as that number. -/
theorem readDigits_toDigits {limit n : Nat} (h : n < limit) :
    readDigits radix limit 0 (Nat.toDigits radix n) = .ok n := by
  induction n using Nat.strongRecOn with
  | ind n ih =>
    rcases Nat.lt_or_ge n radix with hlt | hge
    · rw [Nat.toDigits_of_lt_base hlt, readDigits_digitChar hradix hlt (by omega), Nat.zero_mul,
        Nat.zero_add]
    · have hquotient : n / radix < n := Nat.div_lt_self (by omega) hpos
      have hvalue : n / radix * radix + n % radix = n := Nat.div_add_mod' n radix
      have hremainder : n % radix < radix := Nat.mod_lt n (by omega)
      rw [Nat.toDigits_of_base_le hpos hge, readDigits_append, ih _ hquotient (by omega)]
      change readDigits radix limit (n / radix) [(n % radix).digitChar] = .ok n
      rw [readDigits_digitChar hradix hremainder (by omega), hvalue]

/-- Different numbers have different digits. -/
theorem toDigits_inj {n k : Nat} (h : Nat.toDigits radix n = Nat.toDigits radix k) : n = k := by
  have hn : readDigits radix (n + k + 1) 0 (Nat.toDigits radix n) = .ok n :=
    readDigits_toDigits hpos hradix (by omega)
  have hk : readDigits radix (n + k + 1) 0 (Nat.toDigits radix k) = .ok k :=
    readDigits_toDigits hpos hradix (by omega)
  rw [h, hk] at hn
  exact (Except.ok.inj hn).symm

/-- Digits are letters or decimal digits. -/
theorem isAlphanum_of_mem_toDigits {n : Nat} {c : Char} (h : c ∈ Nat.toDigits radix n) :
    c.isAlphanum = true := by
  have hsixteen : ∀ digit < 16, (Nat.digitChar digit).isAlphanum = true := by decide
  induction n using Nat.strongRecOn with
  | ind n ih =>
    rcases Nat.lt_or_ge n radix with hlt | hge
    · rw [Nat.toDigits_of_lt_base hlt, List.mem_singleton] at h
      rw [h]
      exact hsixteen n (by omega)
    · have hremainder : n % radix < radix := Nat.mod_lt n (by omega)
      rw [Nat.toDigits_of_base_le hpos hge, List.mem_append, List.mem_singleton] at h
      rcases h with hmem | rfl
      · exact ih _ (Nat.div_lt_self (by omega) hpos) hmem
      · exact hsixteen _ (by omega)

end Radix

/-- A hexadecimal numeral is its mark and the digits. -/
theorem toList_hexNumeral (n : Nat) : (hexNumeral n).toList = '0' :: 'x' :: Nat.toDigits 16 n := by
  have hpad : 1 - (Nat.toDigits 16 n).length = 0 := Nat.sub_eq_zero_of_le Nat.length_toDigits_pos
  simp [hexNumeral, hexDigits, hpad]

/-- Different numbers have different hexadecimal numerals. -/
theorem hexNumeral_inj {n k : Nat} (h : hexNumeral n = hexNumeral k) : n = k := by
  have hlist : '0' :: 'x' :: Nat.toDigits 16 n = '0' :: 'x' :: Nat.toDigits 16 k := by
    rw [← toList_hexNumeral, h, toList_hexNumeral]
  exact toDigits_inj (by decide) (by decide) (List.cons.inj (List.cons.inj hlist).2).2

end Synopsis.Text
