import Synopsis.Proofs.Flags.Calls
import Synopsis.Proofs.Flags.Listing
import Synopsis.Proofs.Text.Numeral

/-!
# Flag words and their names

A table is sound when no bit and no name is in it twice and every name is made of letters. Then every
bit has a name of its own, be it one of the table or a hexadecimal numeral, and no name is the mark for a
word without bits. None of them has a comma or a blank in it, so the names that are written for a word
can be taken apart again, and different words are written differently. Reading them back gives the word
as long as all its bits are in the table.
-/

namespace Synopsis.FlagTable

open Text Flags

section Plain

/-- Whether a text can stand in a list of names as it is. -/
def Plain (name : String) : Prop := name ≠ "" ∧ ∀ c ∈ name.toList, isBlank c = false ∧ c ≠ ','

/-- Letters and digits are neither blanks nor commas. -/
theorem not_blank_of_isAlphanum {c : Char} (h : c.isAlphanum = true) : isBlank c = false ∧ c ≠ ',' := by
  have hrange : (65 ≤ c.toNat ∧ c.toNat ≤ 90 ∨ 97 ≤ c.toNat ∧ c.toNat ≤ 122) ∨
      48 ≤ c.toNat ∧ c.toNat ≤ 57 := by
    change (decide (c.val ≥ 65 ∧ c.val ≤ 90) || decide (c.val ≥ 97) && decide (c.val ≤ 122) ||
      decide (c.val ≥ 48) && decide (c.val ≤ 57)) = true at h
    simp only [Bool.or_eq_true, Bool.and_eq_true, decide_eq_true_eq, UInt32.le_iff_toNat_le,
      ge_iff_le] at h
    exact h
  constructor
  · simp only [isBlank, Bool.or_eq_false_iff, Bool.and_eq_false_iff, decide_eq_false_iff_not,
      beq_eq_false_iff_ne]
    omega
  · rintro rfl
    simp at hrange

/-- A space at the start of a list of names makes no difference. -/
theorem map_trim_splitWhere_cons_space (text : List Char) :
    (splitWhere (· = ',') (' ' :: text)).map trim = (splitWhere (· = ',') text).map trim := by
  obtain ⟨piece, pieces, hpieces⟩ := List.exists_cons_of_ne_nil (splitWhere_ne_nil (· = ',') text)
  have hsplit : splitWhere (· = ',') (' ' :: text) = (' ' :: piece) :: pieces := by
    rw [splitWhere, hpieces]
    rfl
  rw [hsplit, hpieces, List.map_cons, List.map_cons, trim_cons_blank isBlank_space]

/-- Names with commas and spaces between them are cut into these names. -/
theorem map_trim_splitWhere_intercalate {names : List String} (hne : names ≠ [])
    (h : ∀ name ∈ names, Plain name) :
    (splitWhere (· = ',') (", ".intercalate names).toList).map trim = names.map String.toList := by
  induction names with
  | nil => contradiction
  | cons name names ih =>
    obtain ⟨⟨-, hname⟩, hnames⟩ := List.forall_mem_cons.mp h
    have hpiece : splitWhere (· = ',') name.toList = [name.toList] :=
      splitWhere_of_forall fun c hc => by simpa using (hname c hc).2
    have htrim : trim name.toList = name.toList :=
      trim_of_trimmed (trimmed_of_not_blank fun c hc => (hname c hc).1)
    cases names with
    | nil => rw [String.intercalate_singleton, hpiece, List.map_singleton, htrim, List.map_singleton]
    | cons second others =>
      have htext : (", ".intercalate (name :: second :: others)).toList =
          name.toList ++ ',' :: ' ' :: (", ".intercalate (second :: others)).toList := by
        simp [String.intercalate_cons_cons]
      rw [htext, splitWhere_append_cons (by simp), List.map_append, map_trim_splitWhere_cons_space,
        hpiece, ih (List.cons_ne_nil second others) hnames, List.map_singleton, htrim]
      rfl

/-- Names that are written with commas between them are read back. -/
theorem namesIn_intercalate {names : List String} (hne : names ≠ []) (h : ∀ name ∈ names, Plain name) :
    namesIn (", ".intercalate names) = names := by
  rw [namesIn, map_trim_splitWhere_intercalate hne h, List.filter_eq_self.mpr, List.map_map]
  · exact List.map_id'' (fun name => String.ofList_toList) names
  · intro characters hmem
    obtain ⟨name, hname, rfl⟩ := List.mem_map.mp hmem
    simpa using (h name hname).1

end Plain

/-- Whether no bit and no name of a table is in it twice and its names are made of letters. -/
structure Sound (table : FlagTable) : Prop where
  bits_nodup : (table.entries.map Prod.fst).Nodup
  names_nodup : (table.entries.map Prod.snd).Nodup
  letters : ∀ entry ∈ table.entries, entry.2 ≠ "" ∧ entry.2.toList.all Char.isAlpha = true

/-- The texts that are written for a word. -/
def written (table : FlagTable) (word : UInt32) : List String :=
  if word = 0 then [noFlags] else (bits word).map table.nameOf

/-- A word is written as these texts with commas between them. -/
theorem format_eq_intercalate_written (table : FlagTable) (word : UInt32) :
    table.format word = ", ".intercalate (table.written word) := by
  by_cases hzero : word = 0
  · subst hzero
    rw [format, format_zero, written, if_pos rfl, String.intercalate_singleton]
    rfl
  · rw [format, format_of_ne_zero _ hzero, written, if_neg hzero, List.mapM_pure]
    rfl

/-- In a list where no key occurs twice, a key leads to its element. -/
theorem find?_key_eq_some {α κ : Type} [DecidableEq κ] (key : α → κ) {list : List α}
    (h : (list.map key).Nodup) {element : α} (hmem : element ∈ list) :
    list.find? (fun other => key other = key element) = some element := by
  induction list with
  | nil => contradiction
  | cons first rest ih =>
    rw [List.map_cons, List.nodup_cons] at h
    rcases List.mem_cons.mp hmem with rfl | hrest
    · simp
    · have hne : key first ≠ key element := fun heq => h.1 (heq ▸ List.mem_map_of_mem hrest)
      rw [List.find?_cons_of_neg (by simpa using hne)]
      exact ih h.2 hrest

/-- The name of a bit is in the table, or it is the bit in hexadecimal. -/
theorem mem_or_nameOf_eq (table : FlagTable) (bit : UInt32) :
    (bit, table.nameOf bit) ∈ table.entries ∨ table.nameOf bit = hexNumeral bit.toNat := by
  cases hfind : table.entries.find? (fun entry => entry.1 = bit) with
  | none =>
    right
    rw [nameOf, hfind]
  | some entry =>
    left
    have hvalue : entry.1 = bit := by simpa using List.find?_some hfind
    rw [nameOf, hfind]
    exact hvalue ▸ List.mem_of_find?_eq_some hfind

namespace Sound

variable {table : FlagTable} (h : table.Sound)
include h

/-- A bit of the table has the name given there. -/
theorem nameOf_of_mem {bit : UInt32} {name : String} (hmem : (bit, name) ∈ table.entries) :
    table.nameOf bit = name := by
  have hfind : table.entries.find? (fun entry => entry.1 = bit) = some (bit, name) :=
    find?_key_eq_some Prod.fst h.bits_nodup hmem
  rw [nameOf, hfind]

/-- A name leads to a bit exactly when the table gives the name to the bit. -/
theorem bit?_eq_some_iff {bit : UInt32} {name : String} :
    table.bit? name = some bit ↔ (bit, name) ∈ table.entries := by
  constructor
  · intro hbit
    obtain ⟨⟨value, known⟩, hfind, rfl⟩ := Option.map_eq_some_iff.mp hbit
    have hname : known = name := by simpa using List.find?_some hfind
    exact hname ▸ List.mem_of_find?_eq_some hfind
  · intro hmem
    have hfind : table.entries.find? (fun entry => entry.2 = name) = some (bit, name) :=
      find?_key_eq_some Prod.snd h.names_nodup hmem
    rw [bit?, hfind]
    rfl

/-- A name of the table starts with a letter. -/
theorem exists_letter_of_mem {bit : UInt32} {name : String} (hmem : (bit, name) ∈ table.entries) :
    ∃ c rest, name.toList = c :: rest ∧ c.isAlpha = true := by
  obtain ⟨hne, hletters⟩ := h.letters _ hmem
  obtain ⟨c, rest, hname⟩ := List.exists_cons_of_ne_nil (by simpa using hne : name.toList ≠ [])
  exact ⟨c, rest, hname, List.all_eq_true.mp hletters c (by simp [hname])⟩

/-- No hexadecimal numeral is a name of the table. -/
theorem hexNumeral_notMem (bit : UInt32) (n : Nat) : (bit, hexNumeral n) ∉ table.entries := by
  intro hmem
  obtain ⟨c, rest, hname, hletter⟩ := h.exists_letter_of_mem hmem
  rw [toList_hexNumeral] at hname
  obtain ⟨rfl, -⟩ := List.cons.inj hname
  exact absurd hletter (by decide)

/-- The mark for a word without bits is no name of the table. -/
theorem noFlags_notMem (bit : UInt32) : (bit, noFlags) ∉ table.entries := by
  intro hmem
  obtain ⟨c, rest, hname, hletter⟩ := h.exists_letter_of_mem hmem
  obtain ⟨rfl, -⟩ := List.cons.inj (show ['?', '?', '?'] = c :: rest from hname)
  exact absurd hletter (by decide)

/-- Different bits have different names. -/
theorem nameOf_injective : Function.Injective table.nameOf := by
  intro bit other heq
  rcases table.mem_or_nameOf_eq bit with hmem | hhex <;>
    rcases table.mem_or_nameOf_eq other with hother | hotherHex
  · rw [heq] at hmem
    exact Option.some.inj ((h.bit?_eq_some_iff.mpr hmem).symm.trans (h.bit?_eq_some_iff.mpr hother))
  · rw [heq, hotherHex] at hmem
    exact absurd hmem (h.hexNumeral_notMem _ _)
  · rw [← heq, hhex] at hother
    exact absurd hother (h.hexNumeral_notMem _ _)
  · rw [hhex, hotherHex] at heq
    exact UInt32.toNat_inj.mp (hexNumeral_inj heq)

/-- Every name of a bit can stand in a list. -/
theorem plain_nameOf (bit : UInt32) : Plain (table.nameOf bit) := by
  rcases table.mem_or_nameOf_eq bit with hmem | hhex
  · obtain ⟨hne, hletters⟩ := h.letters _ hmem
    refine ⟨hne, fun c hc => not_blank_of_isAlphanum ?_⟩
    rw [Char.isAlphanum, List.all_eq_true.mp hletters c hc, Bool.true_or]
  · rw [hhex]
    refine ⟨fun hempty => ?_, fun c hc => not_blank_of_isAlphanum ?_⟩
    · have hlist := toList_hexNumeral bit.toNat
      simp [hempty] at hlist
    · rw [toList_hexNumeral] at hc
      rcases List.mem_cons.mp hc with rfl | hc
      · decide
      · rcases List.mem_cons.mp hc with rfl | hc
        · decide
        · exact isAlphanum_of_mem_toDigits (by decide) (by decide) hc

/-- A word is written as texts that are taken apart again. -/
theorem namesIn_format (word : UInt32) : namesIn (table.format word) = table.written word := by
  rw [format_eq_intercalate_written]
  by_cases hzero : word = 0
  · rw [written, if_pos hzero]
    refine namesIn_intercalate (List.cons_ne_nil _ _) (List.forall_mem_singleton.mpr ?_)
    refine ⟨by decide, fun c hc => ?_⟩
    obtain rfl : c = '?' := by simpa [noFlags] using hc
    decide
  · rw [written, if_neg hzero]
    refine namesIn_intercalate (fun hnil => hzero ?_) fun name hname => ?_
    · exact (bits_eq_nil_iff word).mp (List.map_eq_nil_iff.mp hnil)
    · obtain ⟨bit, -, rfl⟩ := List.mem_map.mp hname
      exact h.plain_nameOf bit

/-- No bit is written as the mark for a word without bits. -/
theorem nameOf_ne_noFlags (bit : UInt32) : table.nameOf bit ≠ noFlags := by
  intro heq
  rcases table.mem_or_nameOf_eq bit with hmem | hhex
  · rw [heq] at hmem
    exact h.noFlags_notMem bit hmem
  · have hlist : '0' :: 'x' :: Nat.toDigits 16 bit.toNat = ['?', '?', '?'] := by
      rw [← toList_hexNumeral, ← hhex, heq]
      rfl
    exact absurd (List.cons.inj hlist).1 (by decide)

/-- Different words are written differently. -/
theorem format_injective : Function.Injective table.format := by
  intro word other heq
  have hwritten : table.written word = table.written other := by
    rw [← h.namesIn_format, heq, h.namesIn_format]
  have hmark {word : UInt32} : [noFlags] ≠ (bits word).map table.nameOf := by
    intro hnames
    obtain ⟨bit, -, hbit⟩ := List.mem_map.mp (hnames ▸ List.mem_singleton_self noFlags)
    exact h.nameOf_ne_noFlags bit hbit
  rw [written, written] at hwritten
  split at hwritten <;> split at hwritten
  · next hword hother => rw [hword, hother]
  · exact absurd hwritten hmark
  · exact absurd hwritten.symm hmark
  · have hbits : bits word = bits other :=
      (List.map_inj_right fun _ _ hname => h.nameOf_injective hname).mp hwritten
    rw [← union_bits word, hbits, union_bits]

/-- The name of a bit leads to a bit only if the bit is in the table. -/
theorem exists_mem_of_bit?_nameOf {bit other : UInt32}
    (hother : table.bit? (table.nameOf bit) = some other) : ∃ name, (bit, name) ∈ table.entries := by
  rcases table.mem_or_nameOf_eq bit with hmem | hhex
  · exact ⟨_, hmem⟩
  · rw [hhex, h.bit?_eq_some_iff] at hother
    exact absurd hother (h.hexNumeral_notMem _ _)

/-- A word that is written is read back exactly when it has bits and all of them are in the table. -/
theorem readNames_format_eq_ok_iff (word : UInt32) :
    table.readNames (table.format word) = .ok word ↔
      word ≠ 0 ∧ ∀ bit ∈ bits word, ∃ name, (bit, name) ∈ table.entries := by
  rw [readNames, h.namesIn_format, addNames_eq_ok_iff, written]
  by_cases hzero : word = 0
  · -- The mark is no name, so it leads to no bit.
    rw [if_pos hzero]
    refine ⟨fun hfound => ?_, fun hword => absurd hzero hword.1⟩
    obtain ⟨found, hfound, -⟩ := hfound
    have hmark : table.bit? noFlags ∈ found.map some := by
      rw [← hfound]
      exact List.mem_map_of_mem (List.mem_singleton_self noFlags)
    obtain ⟨bit, -, hbit⟩ := List.mem_map.mp hmark
    exact absurd (h.bit?_eq_some_iff.mp hbit.symm) (h.noFlags_notMem bit)
  · rw [if_neg hzero, List.map_map]
    constructor
    · rintro ⟨found, hfound, -⟩
      refine ⟨hzero, fun bit hbit => ?_⟩
      obtain ⟨other, -, hother⟩ := List.mem_map.mp (hfound ▸ List.mem_map_of_mem hbit)
      exact h.exists_mem_of_bit?_nameOf hother.symm
    · rintro ⟨-, hbits⟩
      refine ⟨bits word, List.map_congr_left fun bit hbit => ?_, (union_bits word).symm⟩
      obtain ⟨name, hmem⟩ := hbits bit hbit
      exact h.bit?_eq_some_iff.mpr (by rwa [h.nameOf_of_mem hmem])

end Sound

/-- A table that gives different names made of letters to the lowest bits is sound. -/
theorem sound_ofNames (title : String) {names : List String} (hlength : names.length ≤ 32)
    (hnodup : names.Nodup)
    (hletters : ∀ name ∈ names, name ≠ "" ∧ name.toList.all Char.isAlpha = true) :
    (ofNames title names).Sound := by
  have hbits : (ofNames title names).entries.map Prod.fst = (List.range names.length).map bitAt := by
    rw [List.range_eq_range', ← List.zipIdx_map_snd, ofNames, List.map_map, List.map_map]
    rfl
  have hnames : (ofNames title names).entries.map Prod.snd = names := by
    rw [ofNames, List.map_map]
    exact List.zipIdx_map_fst 0 names
  refine ⟨?_, by rwa [hnames], fun entry hentry => ?_⟩
  · rw [hbits, List.nodup_iff_pairwise_ne, List.pairwise_map]
    refine List.nodup_range.imp_of_mem fun hleft hright hne heq => hne ?_
    rw [List.mem_range] at hleft hright
    exact bitAt_inj (by omega) (by omega) heq
  · exact hletters entry.2 (hnames ▸ List.mem_map_of_mem hentry)

/-- The table of symbols is sound. -/
theorem sound_symbols : symbols.Sound :=
  sound_ofNames _ (by decide) (by decide +kernel) (by decide +kernel)

/-- The table of types is sound. -/
theorem sound_types : types.Sound :=
  sound_ofNames _ (by decide) (by decide +kernel) (by decide +kernel)

/-- Names and words of both tables round trip. Different words are written differently, be it with names,
numerals or the mark for no bits. What is written for a word is read back as that word exactly when it
has bits and all of them are in the table. A list of names is read as a word exactly when every name given
in it is in the table, and the bits of the word are then those of the names, in whatever order and however
often they are given. -/
theorem names_round_trip {table : FlagTable} (htable : table = symbols ∨ table = types) :
    Function.Injective table.format ∧
      (∀ word, table.readNames (table.format word) = .ok word ↔
        word ≠ 0 ∧ ∀ shift < 32, word.toNat.testBit shift = true →
          ∃ name, (bitAt shift, name) ∈ table.entries) ∧
      ∀ text value, table.readNames text = .ok value ↔
        (∀ name, NamedIn text name → ∃ bit, (bit, name) ∈ table.entries) ∧
        ∀ shift, value.toNat.testBit shift = true ↔
          ∃ name bit, NamedIn text name ∧ (bit, name) ∈ table.entries ∧
            bit.toNat.testBit shift = true := by
  have h : table.Sound := by
    rcases htable with rfl | rfl
    · exact sound_symbols
    · exact sound_types
  refine ⟨h.format_injective, fun word => ?_, fun text value => ?_⟩
  · rw [h.readNames_format_eq_ok_iff, forall_mem_bits_iff]
  · simp only [readNames_eq_ok_iff, h.bit?_eq_some_iff]

/-- A list with blanks, an empty piece and a name given twice, and a word with a bit that has no name. -/
theorem names_round_trip_types :
    (types = symbols ∨ types = types) ∧ types.readNames " Union,, String ,Union" = .ok 0x100004 ∧
      types.format 0x20000004 = "String, 0x20000000" ∧
      types.readNames (types.format 0x100004) = .ok 0x100004 ∧
      types.readNames (types.format 0x20000004) ≠ .ok 0x20000004 ∧
      ∀ name, NamedIn " Union,, String ,Union" name → ∃ bit, (bit, name) ∈ types.entries := by
  obtain ⟨-, hwords, hlists⟩ := @names_round_trip types (Or.inr rfl)
  have hlist : types.readNames " Union,, String ,Union" = .ok 0x100004 := by rfl
  have hknown : ∀ shift < 32, (0x100004 : UInt32).toNat.testBit shift = true →
      (bitAt shift, types.nameOf (bitAt shift)) ∈ types.entries := by decide +kernel
  have hunknown : ∀ entry ∈ types.entries, entry.1 ≠ bitAt 29 := by decide +kernel
  refine ⟨Or.inr rfl, hlist, by decide +kernel, ?_, fun hread => ?_, ((hlists _ _).mp hlist).1⟩
  · exact (hwords _).mpr ⟨by decide, fun shift hshift hset => ⟨_, hknown shift hshift hset⟩⟩
  · obtain ⟨name, hmem⟩ := ((hwords _).mp hread).2 29 (by decide) (by decide)
    exact hunknown _ hmem rfl

end Synopsis.FlagTable
