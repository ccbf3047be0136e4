import Synopsis.Command.Run
import Synopsis.Proofs.Text.Positional
import Synopsis.Proofs.Text.Trim

/-!
# Flag words as numerals

A flag word may be given as a number: hexadecimal behind `0x` or `0X`, binary behind `0b`, or else decimal.
The letter of a mark is no decimal digit, so a text denotes a number in one of these ways at most, and no
blank is part of a numeral, so those around it can be told apart from it. What is printed for a list of
names is its word as a hexadecimal and as a decimal numeral, and either is read as that word again.
-/

namespace Synopsis.FlagTable

open Text

/-- Whether a text is a numeral for the number of a flag word. -/
inductive IsWordNumeral : List Char → Nat → Prop where
  | hexadecimal {mark : Char} {digits : List Char} {n : Nat} (hmark : mark = 'x' ∨ mark = 'X')
      (hdigits : IsNumeral 16 digits n) : IsWordNumeral ('0' :: mark :: digits) n
  | binary {digits : List Char} {n : Nat} (hdigits : IsNumeral 2 digits n) :
      IsWordNumeral ('0' :: 'b' :: digits) n
  | decimal {digits : List Char} {n : Nat} (hdigits : IsNumeral 10 digits n) : IsWordNumeral digits n

section Marks

variable {mark : Char} {digits : List Char} {n : Nat}

/-- A text with a letter behind its first character is no decimal numeral. -/
theorem not_isNumeral_ten_of_letter (hmark : 57 < mark.toNat) : ¬ IsNumeral 10 ('0' :: mark :: digits) n := by
  intro h
  rcases h.digit_of_mem (c := mark) (by simp) with rfl | ⟨value, hvalue⟩
  · simp at hmark
  · have hcode := hvalue.code (by decide)
    omega

/-- Behind the mark for it there is a hexadecimal numeral. -/
theorem isWordNumeral_hexadecimal_iff (hmark : mark = 'x' ∨ mark = 'X') :
    IsWordNumeral ('0' :: mark :: digits) n ↔ IsNumeral 16 digits n := by
  constructor
  · intro h
    cases h with
    | hexadecimal _ hdigits => exact hdigits
    | binary hdigits => simp at hmark
    | decimal hdigits =>
      have hletter : 57 < mark.toNat := by rcases hmark with rfl | rfl <;> decide
      exact absurd hdigits (not_isNumeral_ten_of_letter hletter)
  · exact .hexadecimal hmark

/-- Behind the mark for it there is a binary numeral. -/
theorem isWordNumeral_binary_iff : IsWordNumeral ('0' :: 'b' :: digits) n ↔ IsNumeral 2 digits n := by
  constructor
  · intro h
    cases h with
    | hexadecimal hmark _ => simp at hmark
    | binary hdigits => exact hdigits
    | decimal hdigits => exact absurd hdigits (not_isNumeral_ten_of_letter (by decide))
  · exact .binary

end Marks

namespace IsWordNumeral

variable {text : List Char} {n k : Nat}

/-- A text denotes one number at most. -/
theorem unique (h : IsWordNumeral text n) (h' : IsWordNumeral text k) : n = k := by
  cases h with
  | hexadecimal hmark hdigits =>
    exact hdigits.unique (by decide) ((isWordNumeral_hexadecimal_iff hmark).mp h')
  | binary hdigits => exact hdigits.unique (by decide) (isWordNumeral_binary_iff.mp h')
  | decimal hdigits =>
    cases h' with
    | hexadecimal hmark hdigits' =>
      exact ((isWordNumeral_hexadecimal_iff hmark).mp (.decimal hdigits)).unique (by decide) hdigits'
    | binary hdigits' => exact (isWordNumeral_binary_iff.mp (.decimal hdigits)).unique (by decide) hdigits'
    | decimal hdigits' => exact hdigits.unique (by decide) hdigits'

/-- A numeral has no blank at either end. -/
theorem trimmed (h : IsWordNumeral text n) : Trimmed text := by
  refine trimmed_of_not_blank ?_
  cases h with
  | @hexadecimal mark _ _ hmark hdigits =>
    have hblank : isBlank mark = false := by rcases hmark with rfl | rfl <;> decide
    exact List.forall_mem_cons.mpr ⟨by decide, List.forall_mem_cons.mpr
      ⟨hblank, hdigits.not_blank (by decide)⟩⟩
  | binary hdigits =>
    exact List.forall_mem_cons.mpr ⟨by decide, List.forall_mem_cons.mpr
      ⟨by decide, hdigits.not_blank (by decide)⟩⟩
  | decimal hdigits => exact hdigits.not_blank (by decide)

end IsWordNumeral

/-- A trimmed text is read as a number exactly when it is a numeral for it and the number fits a word. -/
theorem readDigits_eq_ok_iff_isWordNumeral (text : List Char) (n : Nat) :
    readDigits text = .ok n ↔ IsWordNumeral text n ∧ n < Nat.pow 2 32 := by
  rw [readDigits.eq_def]
  split
  · rw [readNumeral_eq_ok_iff (by decide), isWordNumeral_hexadecimal_iff (.inl rfl)]
  · rw [readNumeral_eq_ok_iff (by decide), isWordNumeral_hexadecimal_iff (.inr rfl)]
  · rw [readNumeral_eq_ok_iff (by decide), isWordNumeral_binary_iff]
  · next hsmall hcapital hbinary =>
    rw [readNumeral_eq_ok_iff (by decide)]
    refine and_congr_left fun _ => ⟨.decimal, fun h => ?_⟩
    cases h with
    | hexadecimal hmark _ =>
      rcases hmark with rfl | rfl
      · exact absurd rfl (hsmall _)
      · exact absurd rfl (hcapital _)
    | binary _ => exact absurd rfl (hbinary _)
    | decimal hdigits => exact hdigits

/-- A text is read as a word exactly when what trimming leaves of it is a numeral for the word. -/
theorem readValue_eq_ok_iff (text : String) (word : UInt32) :
    readValue text = .ok word ↔ IsWordNumeral (trim text.toList) word.toNat := by
  have hword : word.toNat < Nat.pow 2 32 := word.toNat_lt
  rw [← and_iff_left (a := IsWordNumeral _ _) hword, ← readDigits_eq_ok_iff_isWordNumeral, readValue]
  cases hread : readDigits (trim text.toList) with
  | error fault => simp
  | ok value =>
    have hvalue : value < Nat.pow 2 32 := ((readDigits_eq_ok_iff_isWordNumeral _ _).mp hread).2
    simp only [Except.ok.injEq]
    constructor
    · rintro rfl
      exact (UInt32.toNat_ofNat_of_lt hvalue).symm
    · rintro rfl
      exact UInt32.ofNat_toNat

/-- A text is read as a word exactly when it is a numeral for the word with blanks around it. -/
theorem readValue_eq_ok_iff_exists (text : String) (word : UInt32) :
    readValue text = .ok word ↔ ∃ lead numeral trail, text.toList = lead ++ numeral ++ trail ∧
      (∀ c ∈ lead, isBlank c = true) ∧ (∀ c ∈ trail, isBlank c = true) ∧
      IsWordNumeral numeral word.toNat := by
  rw [readValue_eq_ok_iff]
  constructor
  · intro h
    obtain ⟨-, lead, trail, hlead, htrail, htext⟩ := trim_eq_iff.mp (Eq.refl (trim text.toList))
    exact ⟨lead, _, trail, htext, hlead, htrail, h⟩
  · rintro ⟨lead, numeral, trail, htext, hlead, htrail, h⟩
    rwa [trim_eq_iff.mpr ⟨h.trimmed, lead, trail, hlead, htrail, htext⟩]

/-- A numeral without blanks around it is read as its word. -/
theorem readValue_of_isWordNumeral {text : String} {word : UInt32}
    (h : IsWordNumeral text.toList word.toNat) : readValue text = .ok word := by
  rwa [readValue_eq_ok_iff, trim_of_trimmed h.trimmed]

/-- A word is read back from its hexadecimal numeral. -/
theorem readValue_hexNumeral (word : UInt32) : readValue (hexNumeral word.toNat) = .ok word := by
  refine readValue_of_isWordNumeral ?_
  rw [toList_hexNumeral]
  exact .hexadecimal (.inl rfl) (isNumeral_toDigits (by decide) (by decide) _)

/-- A word is read back from its decimal numeral. -/
theorem readValue_toString (word : UInt32) : readValue (toString word.toNat) = .ok word :=
  readValue_of_isWordNumeral (.decimal (isNumeral_toString word.toNat))

/-- What is printed for a list of names is their word in both forms. -/
theorem runFlags_of_readNames {name list : String} {table : FlagTable} {word : UInt32}
    (htable : ofName? name = some table) (hnames : isNumeric list = false)
    (hword : table.readNames list = .ok word) :
    Command.runFlags name list =
      .ok (hexNumeral word.toNat ++ " (" ++ toString word.toNat ++ ")" ++ "\n") := by
  have hfound : Command.tableOf name = .ok table := by rw [Command.tableOf, htable]
  simp only [Command.runFlags, hfound, hnames, bind, Except.bind, Bool.false_eq_true, if_false, hword]
  rfl

/-- Exactly the numerals for words, with or without blanks around them, are read as words, and no text is a
numeral for two numbers. Every word is read back from its hexadecimal and from its decimal numeral; these are
what is printed for a list of names that has the word. -/
theorem readValue_accepts_numerals :
    (∀ text word, readValue text = .ok word ↔
      ∃ lead numeral trail, text.toList = lead ++ numeral ++ trail ∧ (∀ c ∈ lead, isBlank c = true) ∧
        (∀ c ∈ trail, isBlank c = true) ∧ IsWordNumeral numeral word.toNat) ∧
      (∀ numeral n k, IsWordNumeral numeral n → IsWordNumeral numeral k → n = k) ∧
      (∀ word : UInt32, readValue (hexNumeral word.toNat) = .ok word ∧
        readValue (toString word.toNat) = .ok word) ∧
      ∀ name table list word, ofName? name = some table → isNumeric list = false →
        table.readNames list = .ok word → ∃ hexadecimal decimal : String,
          Command.runFlags name list = .ok (hexadecimal ++ " (" ++ decimal ++ ")" ++ "\n") ∧
            readValue hexadecimal = .ok word ∧ readValue decimal = .ok word := by
  refine ⟨readValue_eq_ok_iff_exists, fun _ _ _ => IsWordNumeral.unique,
    fun word => ⟨readValue_hexNumeral word, readValue_toString word⟩, ?_⟩
  intro name table list word htable hnames hword
  exact ⟨_, _, runFlags_of_readNames htable hnames hword, readValue_hexNumeral word,
    readValue_toString word⟩

/-- A signed numeral with zeros in front, one that does not fit a word, and what is printed for two names. -/
theorem readValue_accepts_padded :
    (∃ lead numeral trail, "\t0X+002a ".toList = lead ++ numeral ++ trail ∧
      (∀ c ∈ lead, isBlank c = true) ∧ (∀ c ∈ trail, isBlank c = true) ∧ IsWordNumeral numeral 42) ∧
      (∀ word : UInt32, ¬ IsWordNumeral "0x100000000".toList word.toNat) ∧
      (ofName? "symbol" = some symbols ∧ isNumeric "Class, Function" = false ∧
        symbols.readNames "Class, Function" = .ok 0x30) ∧
      ∃ hexadecimal decimal : String,
        Command.runFlags "symbol" "Class, Function" =
            .ok (hexadecimal ++ " (" ++ decimal ++ ")" ++ "\n") ∧
          readValue hexadecimal = .ok 0x30 ∧ readValue decimal = .ok 0x30 := by
  obtain ⟨hread, -, -, hprinted⟩ := readValue_accepts_numerals
  have hnames : symbols.readNames "Class, Function" = .ok 0x30 := by decide +kernel
  refine ⟨(hread "\t0X+002a " 42).mp (by decide +kernel), fun word hword => ?_,
    ⟨rfl, by decide +kernel, hnames⟩, hprinted _ _ _ _ rfl (by decide +kernel) hnames⟩
  have hfits := (hread "0x100000000" word).mpr ⟨[], _, [], rfl, by simp, by simp, hword⟩
  have hrefused : readValue "0x100000000" = .error (.numeral "0x100000000" .tooLarge) := by decide +kernel
  rw [hrefused] at hfits
  contradiction

end Synopsis.FlagTable
