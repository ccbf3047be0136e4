import Synopsis.Flags.Reading
import Synopsis.Proofs.Flags.Bits
import Synopsis.Proofs.Text.Trim

/-!
# Lists of flag names

A list of names is read by cutting it at commas and trimming what stands between them. It denotes a word
exactly when every name in it has a bit in the table, and the word is then the union of these bits. Which
names are in a list is a matter of what stands between its commas, so neither their order nor how often a
name is given makes a difference.
-/

namespace Synopsis.FlagTable

open Text Flags

/-- Whether a name is given in a list: it stands between commas, or an end of the list, and nothing but
blanks is left around it. -/
def NamedIn (text name : String) : Prop :=
  name ≠ "" ∧ Trimmed name.toList ∧ ',' ∉ name.toList ∧
    ∃ before lead trail after, text.toList = before ++ (lead ++ name.toList ++ trail) ++ after ∧
      (∀ c ∈ lead, isBlank c = true) ∧ (∀ c ∈ trail, isBlank c = true) ∧
      (∀ c ∈ before.getLast?, c = ',') ∧ ∀ c ∈ after.head?, c = ','

/-- No blank is a comma. -/
theorem ne_comma_of_isBlank {c : Char} (h : isBlank c = true) : c ≠ ',' := by
  rintro rfl
  exact absurd h (by decide)

/-- The names of a list are what trimming leaves of the pieces between commas. -/
theorem mem_namesIn_iff {text name : String} :
    name ∈ namesIn text ↔
      ∃ piece ∈ splitWhere (· = ',') text.toList, trim piece = name.toList ∧ name ≠ "" := by
  simp only [namesIn, List.mem_map, List.mem_filter, decide_eq_true_eq]
  constructor
  · rintro ⟨_, ⟨⟨piece, hpiece, rfl⟩, hne⟩, rfl⟩
    exact ⟨piece, hpiece, by rw [String.toList_ofList], by simpa using hne⟩
  · rintro ⟨piece, hpiece, htrim, hne⟩
    refine ⟨name.toList, ⟨⟨piece, hpiece, htrim⟩, by simpa using hne⟩, String.ofList_toList⟩

/-- The names of a list are those that are given in it. -/
theorem mem_namesIn_iff_namedIn {text name : String} : name ∈ namesIn text ↔ NamedIn text name := by
  rw [mem_namesIn_iff]
  constructor
  · rintro ⟨piece, hmem, htrim, hne⟩
    obtain ⟨before, after, htext, hpiece⟩ := mem_splitWhere_iff.mp hmem
    obtain ⟨htrimmed, lead, trail, hlead, htrail, rfl⟩ := trim_eq_iff.mp htrim
    refine ⟨hne, htrimmed, fun hcomma => ?_, before, lead, trail, after, htext, hlead, htrail, ?_, ?_⟩
    · simpa using hpiece.solid ',' (by simp [hcomma])
    · simpa using hpiece.opened
    · simpa using hpiece.closed
  · rintro ⟨hne, htrimmed, hcomma, before, lead, trail, after, htext, hlead, htrail, hopened, hclosed⟩
    refine ⟨lead ++ name.toList ++ trail, mem_splitWhere_iff.mpr ⟨before, after, htext, ?_, ?_, ?_⟩,
      trim_append hlead htrimmed htrail, hne⟩
    · intro c hc
      simp only [List.mem_append] at hc
      rcases hc with (hc | hc) | hc
      · simpa using ne_comma_of_isBlank (hlead c hc)
      · simpa using fun heq : c = ',' => hcomma (heq ▸ hc)
      · simpa using ne_comma_of_isBlank (htrail c hc)
    · simpa using hopened
    · simpa using hclosed

section Reading

variable (table : FlagTable)

/-- Adding names gives a word exactly when each of them has a bit, and then adds these bits. -/
theorem addNames_eq_ok_iff (word value : UInt32) (names : List String) :
    table.addNames word names = .ok value ↔
      ∃ found : List UInt32, names.map table.bit? = found.map some ∧
        value = found.foldl (· ||| ·) word := by
  induction names generalizing word with
  | nil =>
    rw [addNames, Except.ok.injEq]
    constructor
    · rintro rfl
      exact ⟨[], rfl, rfl⟩
    · rintro ⟨found, hfound, rfl⟩
      rw [List.map_eq_nil_iff.mp hfound.symm, List.foldl_nil]
  | cons name names ih =>
    rw [addNames]
    cases hbit : table.bit? name with
    | none =>
      simp only [reduceCtorEq, List.map_cons, hbit, false_iff]
      rintro ⟨found, hfound, -⟩
      cases found <;> simp at hfound
    | some bit =>
      rw [List.map_cons, hbit]
      simp only [ih]
      constructor
      · rintro ⟨found, hfound, hvalue⟩
        exact ⟨bit :: found, by rw [hfound, List.map_cons], hvalue⟩
      · rintro ⟨found, hfound, hvalue⟩
        cases found with
        | nil => simp at hfound
        | cons first found =>
          obtain ⟨hfirst, hrest⟩ := List.cons.inj hfound
          obtain rfl := Option.some.inj hfirst
          exact ⟨found, hrest, hvalue⟩

/-- Names of which each has a bit have a list of bits. -/
theorem exists_map_bit?_eq {names : List String}
    (h : ∀ name ∈ names, ∃ bit, table.bit? name = some bit) :
    ∃ found : List UInt32, names.map table.bit? = found.map some := by
  refine ⟨names.map fun name => (table.bit? name).getD 0, ?_⟩
  rw [List.map_map]
  refine List.map_congr_left fun name hname => ?_
  obtain ⟨bit, hbit⟩ := h name hname
  simp [hbit]

/-- The bits of some names are set where one of the names has a bit. -/
theorem testBit_union_iff {names : List String} {found : List UInt32}
    (h : names.map table.bit? = found.map some) (shift : Nat) :
    (union found).toNat.testBit shift = true ↔
      ∃ name bit, name ∈ names ∧ table.bit? name = some bit ∧ bit.toNat.testBit shift = true := by
  have hfound (bit : UInt32) : bit ∈ found ↔ ∃ name ∈ names, table.bit? name = some bit := by
    rw [← List.mem_map, h]
    simp
  rw [testBit_union, List.any_eq_true]
  constructor
  · rintro ⟨bit, hmem, hset⟩
    obtain ⟨name, hname, hbit⟩ := (hfound bit).mp hmem
    exact ⟨name, bit, hname, hbit, hset⟩
  · rintro ⟨name, bit, hname, hbit, hset⟩
    exact ⟨bit, (hfound bit).mpr ⟨name, hname, hbit⟩, hset⟩

/-- A list of names denotes a word exactly when each name has a bit, and the word has the bits of all
names and no others. -/
theorem readNames_eq_ok_iff (text : String) (value : UInt32) :
    table.readNames text = .ok value ↔
      (∀ name, NamedIn text name → ∃ bit, table.bit? name = some bit) ∧
      ∀ shift, value.toNat.testBit shift = true ↔
        ∃ name bit, NamedIn text name ∧ table.bit? name = some bit ∧ bit.toNat.testBit shift = true := by
  simp only [readNames, addNames_eq_ok_iff, ← mem_namesIn_iff_namedIn]
  constructor
  · rintro ⟨found, hfound, rfl⟩
    refine ⟨fun name hname => ?_, testBit_union_iff table hfound⟩
    have hmem : table.bit? name ∈ found.map some := by
      rw [← hfound]
      exact List.mem_map_of_mem hname
    obtain ⟨bit, -, hbit⟩ := List.mem_map.mp hmem
    exact ⟨bit, hbit.symm⟩
  · rintro ⟨hnames, hvalue⟩
    obtain ⟨found, hfound⟩ := table.exists_map_bit?_eq hnames
    refine ⟨found, hfound, eq_of_testBit_eq fun shift _ => Bool.eq_iff_iff.mpr ?_⟩
    exact (hvalue shift).trans (testBit_union_iff table hfound shift).symm

end Reading

end Synopsis.FlagTable
