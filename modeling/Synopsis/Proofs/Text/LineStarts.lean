import Mathlib.Data.List.DropRight
import Synopsis.Proofs.Text.Slice
import Synopsis.Text.Position

/-!
# Line feeds among the bytes of a text

Lines are counted in the bytes of a text here, without looking at characters: the byte of a line feed
belongs to no other character, and every character has one first byte. The bytes before any offset are
whole lines and the part of a line that has no line feed. The table of line starts is read off these
bytes, so the line feeds before an offset number the last line that starts at or before it.
-/

namespace Synopsis.Text

/-- The UTF-8 form of a text. -/
def bytes (text : String) : List UInt8 := text.toByteArray.data.toList

/-- The byte of a line feed. -/
def feed : UInt8 := 0x0A

/-- The number of line feeds among the first bytes of a text. -/
def feedsBefore (text : String) (offset : Nat) : Nat := ((bytes text).take offset).count feed

/-- The start of the line that an offset lies on. The bytes before the offset that stand behind the last
line feed do not count. -/
def lineStartBefore (text : String) (offset : Nat) : Nat :=
  (((bytes text).take offset).rdropWhile (· ≠ feed)).length

/-- The number of characters that have their first byte from `start` up to `stop`. -/
def charactersBetween (text : String) (start stop : Nat) : Nat :=
  (((bytes text).take stop).drop start).countP (·.IsUTF8FirstByte)

section Encoding

/-- The bytes of characters in a row. -/
def encode (text : List Char) : List UInt8 := text.flatMap String.utf8EncodeChar

/-- The bytes of a text are those of its characters. -/
theorem bytes_eq_encode (text : String) : bytes text = encode text.toList := by
  rw [bytes, ← String.utf8Encode_toList, List.utf8Encode, encode]
  simp

@[simp] theorem encode_cons (c : Char) (rest : List Char) :
    encode (c :: rest) = String.utf8EncodeChar c ++ encode rest := List.flatMap_cons

@[simp] theorem encode_append (left right : List Char) :
    encode (left ++ right) = encode left ++ encode right := List.flatMap_append

/-- Characters have as many bytes as is counted for them. -/
@[simp] theorem length_encode (text : List Char) : (encode text).length = byteLength text := by
  induction text with
  | nil => rfl
  | cons c rest ih => simp [byteLength, ih]

/-- A text has as many bytes as is counted for it. -/
theorem length_bytes (text : String) : (bytes text).length = byteLength text.toList := by
  rw [bytes_eq_encode, length_encode]

/-- A byte from the upper half is no line feed. -/
theorem feed_eq_ofNat_iff {n : Nat} (hlow : 128 ≤ n) (hhigh : n < 256) :
    feed = UInt8.ofNat n ↔ False := by
  rw [iff_false]
  intro h
  have hvalue : 10 = n % 256 := congrArg UInt8.toNat h
  omega

/-- Only a line feed has the byte of a line feed. -/
theorem feed_mem_utf8EncodeChar_iff (c : Char) : feed ∈ String.utf8EncodeChar c ↔ c = '\n' := by
  constructor
  · intro h
    rw [String.utf8EncodeChar.eq_1] at h
    split_ifs at h
    · have hvalue : 10 = c.val.toNat % 256 := congrArg UInt8.toNat (List.mem_singleton.mp h)
      apply Char.ext
      apply UInt32.toNat_inj.mp
      change c.val.toNat = 10
      omega
    -- All bytes of a longer character are from the upper half.
    all_goals
      simp (disch := omega) only [List.mem_cons, List.not_mem_nil, feed_eq_ofNat_iff, or_self] at h
  · rintro rfl
    decide

/-- Every character has one first byte. -/
theorem countP_utf8EncodeChar (c : Char) :
    (String.utf8EncodeChar c).countP (·.IsUTF8FirstByte) = 1 := by
  obtain ⟨first, rest, hbytes⟩ := List.exists_cons_of_ne_nil (String.utf8EncodeChar_ne_nil (c := c))
  have hat (i : Nat) (hi : i < (first :: rest).length) :
      (first :: rest)[i].IsUTF8FirstByte ↔ i = 0 := by
    simp only [← hbytes] at hi ⊢
    exact UInt8.isUTF8FirstByte_getElem_utf8EncodeChar
  have hfirst : first.IsUTF8FirstByte := (hat 0 (Nat.succ_pos _)).mpr rfl
  have hrest : ∀ byte ∈ rest, ¬ byte.IsUTF8FirstByte := by
    intro byte hbyte
    obtain ⟨i, hi, rfl⟩ := List.getElem_of_mem hbyte
    exact (hat (i + 1) (Nat.succ_lt_succ hi)).not.mpr (Nat.succ_ne_zero i)
  rw [hbytes, List.countP_cons, List.countP_eq_zero.mpr (by simpa using hrest)]
  simp [hfirst]

/-- The first bytes of characters count them. -/
theorem countP_encode (text : List Char) : (encode text).countP (·.IsUTF8FirstByte) = text.length := by
  induction text with
  | nil => rfl
  | cons c rest ih =>
    rw [encode_cons, List.countP_append, countP_utf8EncodeChar, ih, List.length_cons, Nat.add_comm]

end Encoding

section Feeds

/-- The offsets just past each line feed of bytes that begin at `offset`. -/
def feedEnds (offset : Nat) : List UInt8 → List Nat
  | [] => []
  | byte :: rest =>
    if byte = feed then (offset + 1) :: feedEnds (offset + 1) rest else feedEnds (offset + 1) rest

/-- The line feeds of bytes in a row are found one after the other. -/
theorem feedEnds_append (offset : Nat) (left right : List UInt8) :
    feedEnds offset (left ++ right) = feedEnds offset left ++ feedEnds (offset + left.length) right := by
  induction left generalizing offset with
  | nil => rfl
  | cons byte left ih =>
    have hnext : offset + 1 + left.length = offset + (byte :: left).length := by
      rw [List.length_cons]
      omega
    by_cases hfeed : byte = feed <;> simp [feedEnds, hfeed, ih, hnext]

/-- Bytes without a line feed have none to find. -/
theorem feedEnds_of_notMem {all : List UInt8} (offset : Nat) (h : feed ∉ all) :
    feedEnds offset all = [] := by
  induction all generalizing offset with
  | nil => rfl
  | cons byte rest ih =>
    rw [List.mem_cons, not_or] at h
    rw [feedEnds, if_neg (Ne.symm h.1), ih _ h.2]

/-- Each line feed is found once. -/
theorem length_feedEnds (offset : Nat) (all : List UInt8) :
    (feedEnds offset all).length = all.count feed := by
  induction all generalizing offset with
  | nil => rfl
  | cons byte rest ih => by_cases hfeed : byte = feed <;> simp [feedEnds, hfeed, ih]

/-- A line feed ends behind the beginning of the bytes and not behind their end. -/
theorem bounds_of_mem_feedEnds {offset stop : Nat} {all : List UInt8}
    (h : stop ∈ feedEnds offset all) : offset < stop ∧ stop ≤ offset + all.length := by
  induction all generalizing offset with
  | nil => simp [feedEnds] at h
  | cons byte rest ih =>
    rw [List.length_cons]
    by_cases hfeed : byte = feed
    · rw [feedEnds, if_pos hfeed, List.mem_cons] at h
      rcases h with rfl | hrest
      · omega
      · have hbounds := ih hrest
        omega
    · rw [feedEnds, if_neg hfeed] at h
      have hbounds := ih h
      omega

/-- Line feeds are found in ascending order. -/
theorem pairwise_feedEnds (offset : Nat) (all : List UInt8) :
    (feedEnds offset all).Pairwise (· < ·) := by
  induction all generalizing offset with
  | nil => exact List.Pairwise.nil
  | cons byte rest ih =>
    by_cases hfeed : byte = feed
    · rw [feedEnds, if_pos hfeed]
      exact List.Pairwise.cons (fun stop hstop => (bounds_of_mem_feedEnds hstop).1) (ih _)
    · rw [feedEnds, if_neg hfeed]
      exact ih _

/-- The table of line starts is read off the bytes of a text. -/
theorem lineStartsFrom_eq_feedEnds (offset : Nat) (text : List Char) :
    lineStartsFrom offset text = feedEnds offset (encode text) := by
  induction text generalizing offset with
  | nil => rfl
  | cons c rest ih =>
    rw [encode_cons, feedEnds_append, String.length_utf8EncodeChar, lineStartsFrom]
    by_cases hc : c = '\n'
    · subst c
      simp only [if_pos, ih]
      rfl
    · rw [if_neg hc, ih, feedEnds_of_notMem offset (mt (feed_mem_utf8EncodeChar_iff c).mp hc),
        List.nil_append]

end Feeds

section Lines

/-- Whether bytes are cut at an offset: whole lines and a part of a line before it, the rest behind it. -/
structure Lined (all : List UInt8) (offset : Nat) (whole part rest : List UInt8) : Prop where
  all_eq : all = whole ++ part ++ rest
  offset_eq : whole.length + part.length = offset
  feed_notMem : feed ∉ part
  whole_ends : whole = [] ∨ ∃ first, whole = first ++ [feed]

/-- The bytes of a text can be cut at any offset in it. The whole lines before the offset reach up to the
start of its line and have all the line feeds before it. -/
theorem exists_lined (text : String) {offset : Nat} (h : offset ≤ byteLength text.toList) :
    ∃ whole part rest, Lined (bytes text) offset whole part rest ∧
      lineStartBefore text offset = whole.length ∧ feedsBefore text offset = whole.count feed := by
  have hparts : ((bytes text).take offset).rdropWhile (· ≠ feed) ++
      ((bytes text).take offset).rtakeWhile (· ≠ feed) = (bytes text).take offset :=
    List.rdropWhile_append_rtakeWhile
  have hnone : feed ∉ ((bytes text).take offset).rtakeWhile (· ≠ feed) := by
    intro hmem
    simpa using List.mem_rtakeWhile_imp hmem
  refine ⟨_, _, (bytes text).drop offset, ⟨?_, ?_, hnone, ?_⟩, rfl, ?_⟩
  · rw [hparts, List.take_append_drop]
  · rw [← List.length_append, hparts, List.length_take, length_bytes, Nat.min_eq_left h]
  · rw [Classical.or_iff_not_imp_left]
    intro hne
    have hlast := List.rdropWhile_last_not _ _ hne
    rw [decide_eq_true_eq, not_not] at hlast
    exact ⟨_, (List.dropLast_append_getLast hne).symm.trans (by rw [hlast])⟩
  · rw [feedsBefore, ← hparts, List.count_append, List.count_eq_zero.mpr hnone, Nat.add_zero, hparts]

namespace Lined

variable {all whole part rest : List UInt8} {offset : Nat}

/-- The line feeds before an offset end in the whole lines, and those behind it end behind it. -/
theorem feedEnds_eq (h : Lined all offset whole part rest) :
    feedEnds 0 all = feedEnds 0 whole ++ feedEnds offset rest := by
  rw [h.all_eq, feedEnds_append, feedEnds_append, feedEnds_of_notMem _ h.feed_notMem, List.append_nil,
    List.length_append, h.offset_eq, Nat.zero_add]

/-- The last line feed of whole lines ends with them. -/
theorem getLast_feedEnds (h : Lined all offset whole part rest) :
    (feedEnds 0 whole).getLast?.getD 0 = whole.length := by
  rcases h.whole_ends with rfl | ⟨first, rfl⟩
  · rfl
  · simp [feedEnds_append, feedEnds]

/-- Whole lines reach no further than the offset. -/
theorem length_whole_le (h : Lined all offset whole part rest) : whole.length ≤ offset := by
  have hoffset := h.offset_eq
  omega

end Lined

/-- Whether a line is the last one of a table that starts at or before an offset. -/
structure LastStart (starts : List Nat) (offset line start : Nat) : Prop where
  start_eq : starts[line]? = some start
  start_le : start ≤ offset
  lt_later : ∀ later next, line < later → starts[later]? = some next → offset < next

/-- The line feeds before an offset number the line that it lies on. -/
theorem lastStart_lineStarts (text : String) {offset : Nat} (h : offset ≤ byteLength text.toList) :
    LastStart (lineStarts text.toList) offset (feedsBefore text offset)
      (lineStartBefore text offset) := by
  obtain ⟨whole, part, rest, hlined, hstart, hfeeds⟩ := exists_lined text h
  have hline : feedsBefore text offset = (feedEnds 0 whole).length := by
    rw [hfeeds, length_feedEnds]
  have htable : lineStarts text.toList = (0 :: feedEnds 0 whole) ++ feedEnds offset rest := by
    rw [lineStarts, lineStartsFrom_eq_feedEnds, ← bytes_eq_encode, hlined.feedEnds_eq,
      List.cons_append]
  rw [hline, hstart, htable]
  refine ⟨?_, hlined.length_whole_le, ?_⟩
  · rw [List.getElem?_append_left (by simp), ← hlined.getLast_feedEnds, ← List.getLast?_cons,
      List.getLast?_eq_getElem?, List.length_cons, Nat.add_sub_cancel]
  · intro later next hlater hnext
    rw [List.getElem?_append_right (by rw [List.length_cons]; omega)] at hnext
    exact (bounds_of_mem_feedEnds (List.mem_of_getElem? hnext)).1

/-- Lines start in ascending order. -/
theorem pairwise_lineStarts (text : List Char) : (lineStarts text).Pairwise (· < ·) := by
  rw [lineStarts, lineStartsFrom_eq_feedEnds]
  exact List.Pairwise.cons (fun start hstart => (bounds_of_mem_feedEnds hstart).1)
    (pairwise_feedEnds 0 _)

/-- The table of line starts has the ends of parts of a text. -/
theorem exists_append_of_mem_lineStartsFrom {offset start : Nat} {text : List Char}
    (h : start ∈ lineStartsFrom offset text) :
    ∃ before after, text = before ++ after ∧ offset + byteLength before = start := by
  induction text generalizing offset with
  | nil => simp [lineStartsFrom] at h
  | cons c rest ih =>
    have hlater (h : start ∈ lineStartsFrom (offset + c.utf8Size) rest) :
        ∃ before after, c :: rest = before ++ after ∧ offset + byteLength before = start := by
      obtain ⟨before, after, rfl, hlength⟩ := ih h
      exact ⟨c :: before, after, rfl, by rw [byteLength]; omega⟩
    rw [lineStartsFrom] at h
    split at h
    · rcases List.mem_cons.mp h with rfl | h
      · exact ⟨[c], rest, rfl, by simp [byteLength]⟩
      · exact hlater h
    · exact hlater h

/-- A line starts between characters. -/
theorem isBoundary_of_mem_lineStarts {text : String} {start : Nat}
    (h : start ∈ lineStarts text.toList) : IsBoundary text start := by
  rcases List.mem_cons.mp h with rfl | h
  · exact ⟨[], text.toList, rfl, rfl⟩
  · obtain ⟨before, after, htext, hlength⟩ := exists_append_of_mem_lineStartsFrom h
    exact ⟨before, after, htext, by omega⟩

end Lines

end Synopsis.Text
