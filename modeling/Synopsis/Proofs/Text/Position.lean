import Mathlib.Data.Prod.Lex
import Synopsis.Proofs.Text.LineStarts
import Synopsis.Source

/-!
# Positions count lines and characters

The line of an offset is searched for by halves in the table of line starts. The first line starts at
zero, so every offset has a line, and it is the one that the line feeds before the offset number. Its
character counts what lies between the start of the line and the offset, unless the offset splits a
character. Positions go up with the boundaries of a text, first by lines and then by characters.
-/

namespace Synopsis

namespace Text

section Searching

variable {table : Array Nat} {value : Nat}

/-- Whether a search says the truth about an ascending table: the value stands where it is found, and
where it is missing all earlier entries are smaller and all others are greater. -/
def Lookup.Truthful (table : Array Nat) (value : Nat) : Lookup → Prop
  | .found index => table[index]? = some value
  | .missing next => next ≤ table.size ∧
      (∀ index entry, index < next → table[index]? = some entry → entry < value) ∧
      ∀ index entry, next ≤ index → table[index]? = some entry → value < entry

/-- Entries of an ascending table are in the order of their places. -/
theorem lt_of_ascending (h : table.toList.Pairwise (· < ·)) {first second before after : Nat}
    (hplaces : first < second) (hbefore : table[first]? = some before)
    (hafter : table[second]? = some after) : before < after := by
  obtain ⟨hfirst, rfl⟩ := Array.getElem?_eq_some_iff.mp hbefore
  obtain ⟨hsecond, rfl⟩ := Array.getElem?_eq_some_iff.mp hafter
  exact List.pairwise_iff_getElem.mp h first second hfirst hsecond hplaces

/-- A search between two places is truthful if the value can stand nowhere else. -/
theorem truthful_lookupBetween (h : table.toList.Pairwise (· < ·)) (low high : Nat)
    (horder : low ≤ high) (hhigh : high ≤ table.size)
    (hbelow : ∀ index entry, index < low → table[index]? = some entry → entry < value)
    (habove : ∀ index entry, high ≤ index → table[index]? = some entry → value < entry) :
    (lookupBetween table value low high hhigh).Truthful table value := by
  fun_induction lookupBetween table value low high hhigh with
  | case1 low high hhigh hlow middle hmiddle heq =>
    exact Array.getElem?_eq_some_iff.mpr ⟨hmiddle, heq⟩
  | case2 low high hhigh hlow middle hmiddle hne hlt ih =>
    -- The middle entry is too small, and so are all before it.
    have hentry : table[middle]? = some table[middle] := Array.getElem?_eq_getElem hmiddle
    refine ih (by omega) (fun index entry hindex hat => ?_) habove
    rcases Nat.lt_or_eq_of_le (Nat.le_of_lt_succ hindex) with hbefore | rfl
    · exact Nat.lt_trans (lt_of_ascending h hbefore hat hentry) hlt
    · rw [hentry, Option.some.injEq] at hat
      omega
  | case3 low high hhigh hlow middle hmiddle hne hnlt ih =>
    have hentry : table[middle]? = some table[middle] := Array.getElem?_eq_getElem hmiddle
    have hgt : value < table[middle] := by omega
    refine ih (by omega) hbelow (fun index entry hindex hat => ?_)
    rcases Nat.lt_or_eq_of_le hindex with hafter | rfl
    · exact Nat.lt_trans hgt (lt_of_ascending h hafter hentry hat)
    · rw [hentry, Option.some.injEq] at hat
      omega
  | case4 low high hhigh hlow =>
    exact ⟨by omega, hbelow, fun index entry hindex => habove index entry (by omega)⟩

/-- A search in an ascending table is truthful. -/
theorem truthful_lookup (table : Array Nat) (value : Nat) (h : table.toList.Pairwise (· < ·)) :
    (lookup table value).Truthful table value := by
  refine truthful_lookupBetween h 0 table.size (Nat.zero_le _) _ (fun index entry hindex => ?_)
    (fun index entry hindex hat => ?_)
  · contradiction
  · rw [Array.getElem?_eq_none hindex] at hat
    cases hat

/-- The search for a line gives the last one that starts at or before the offset. -/
theorem lineOf?_of_lastStart {starts : List Nat} {offset line start : Nat}
    (hascending : starts.Pairwise (· < ·)) (h : LastStart starts offset line start) :
    lineOf? starts.toArray offset = some line := by
  have htrue := truthful_lookup starts.toArray offset hascending
  have hstart : starts.toArray[line]? = some start := by rw [List.getElem?_toArray, h.start_eq]
  have hlater (later next : Nat) (hlt : line < later) (hat : starts.toArray[later]? = some next) :
      offset < next := h.lt_later later next hlt (by rw [← List.getElem?_toArray, hat])
  have hle := h.start_le
  rw [lineOf?]
  cases hlookup : lookup starts.toArray offset with
  | found index =>
    rw [hlookup] at htrue
    have hindex : index = line := by
      rcases Nat.lt_trichotomy index line with hlt | heq | hgt
      · have := lt_of_ascending hascending hlt htrue hstart
        omega
      · exact heq
      · have := hlater index offset hgt htrue
        omega
    rw [hindex]
  | missing next =>
    rw [hlookup] at htrue
    obtain ⟨hsize, hsmaller, hgreater⟩ := htrue
    -- The line starts before the place of the offset, and the line after it, if any, does not.
    have hbefore : line < next := by
      by_contra hnot
      have := hgreater line start (by omega) hstart
      omega
    have hbehind : next ≤ line + 1 := by
      by_contra hnot
      have hentry := Array.getElem?_eq_getElem (show line + 1 < starts.toArray.size by omega)
      have := hsmaller (line + 1) _ (by omega) hentry
      have := hlater (line + 1) _ (by omega) hentry
      omega
    obtain rfl : next = line + 1 := by omega
    rfl

end Searching

section Counting

variable {text : String}

/-- Between boundaries in order the first bytes count the characters of the slice. -/
theorem charactersBetween_eq_length {start stop : Nat} (horder : start ≤ stop)
    (hstart : IsBoundary text start) (hstop : IsBoundary text stop) :
    charactersBetween text start stop = (sliceOrEmpty text start stop).length := by
  have hslice := slice?_eq_some_sliceOrEmpty text start stop horder hstart hstop
  obtain ⟨before, after, htext, hbefore, hlength⟩ := (slice?_eq_some_iff _ _ _ _).mp hslice
  have htake : (encode before ++ encode (sliceOrEmpty text start stop).toList ++
      encode after).take stop = encode before ++ encode (sliceOrEmpty text start stop).toList :=
    List.take_left' (by rw [List.length_append, length_encode, length_encode, hbefore, hlength])
  have hdrop : (encode before ++ encode (sliceOrEmpty text start stop).toList).drop start =
      encode (sliceOrEmpty text start stop).toList :=
    List.drop_left' (by rw [length_encode, hbefore])
  rw [charactersBetween, bytes_eq_encode, htext, encode_append, encode_append, htake, hdrop,
    countP_encode, String.length_toList]

/-- The slice from the start of an offset's line has the characters in between, and none if the offset
splits a character. -/
theorem length_slice_of_lastStart {offset line start : Nat}
    (h : LastStart (lineStarts text.toList) offset line start) :
    (sliceOrEmpty text start offset).length =
      if IsBoundary text offset then charactersBetween text start offset else 0 := by
  have hstart := isBoundary_of_mem_lineStarts (List.mem_of_getElem? h.start_eq)
  split
  · next hoffset => rw [charactersBetween_eq_length h.start_le hstart hoffset]
  · next hoffset =>
    have hnone : slice? text start offset = none := by
      rw [← Option.not_isSome_iff_eq_none, slice?_isSome_iff]
      exact fun hsome => hoffset hsome.2.2
    rw [sliceOrEmpty, hnone]
    rfl

/-- Every offset has a position, which counts the line feeds before it and the characters of its line. -/
theorem position?_eq_some (text : String) (offset : Nat) :
    position? text offset = some
      { line := feedsBefore text (min offset (byteLength text.toList))
        character := if IsBoundary text (min offset (byteLength text.toList)) then
          charactersBetween text (lineStartBefore text (min offset (byteLength text.toList)))
            (min offset (byteLength text.toList)) else 0 } := by
  have hlast := lastStart_lineStarts text (Nat.min_le_right offset (byteLength text.toList))
  rw [position?, ← length_slice_of_lastStart hlast]
  simp only [lineOf?_of_lastStart (pairwise_lineStarts _) hlast, Option.bind_eq_bind, Option.bind_some,
    List.getElem?_toArray, hlast.start_eq, pure]

/-- The position of a boundary counts the characters of the slice from the start of its line. -/
theorem position_of_isBoundary {offset : Nat} (h : IsBoundary text offset) :
    position text offset =
      ⟨feedsBefore text offset, (sliceOrEmpty text (lineStartBefore text offset) offset).length⟩ := by
  have hlast := lastStart_lineStarts text h.le_byteLength
  rw [position, position?_eq_some, Option.getD_some, Nat.min_eq_left h.le_byteLength,
    length_slice_of_lastStart hlast]

/-- Going on in a text passes line feeds and takes none back. -/
theorem feedsBefore_le (text : String) {first second : Nat} (h : first ≤ second) :
    feedsBefore text first ≤ feedsBefore text second :=
  (List.take_sublist_take_left h).count_le _

/-- Positions go up with the boundaries, first by lines and then by characters. -/
theorem position_lt_position {first second : Nat} (hfirst : IsBoundary text first)
    (hsecond : IsBoundary text second) (hlt : first < second) :
    toLex ((position text first).line, (position text first).character) <
      toLex ((position text second).line, (position text second).character) := by
  have hlast := lastStart_lineStarts text hfirst.le_byteLength
  have hlast' := lastStart_lineStarts text hsecond.le_byteLength
  rw [position_of_isBoundary hfirst, position_of_isBoundary hsecond, Prod.Lex.toLex_lt_toLex]
  rcases Nat.lt_or_eq_of_le (feedsBefore_le text (Nat.le_of_lt hlt)) with hlines | hline
  · exact Or.inl hlines
  · refine Or.inr ⟨hline, ?_⟩
    -- The line is the same, so its start is, and the second slice is the first and more.
    have hstart : lineStartBefore text first = lineStartBefore text second := by
      have heq := hlast.start_eq
      rw [hline, hlast'.start_eq, Option.some.injEq] at heq
      exact heq.symm
    have hboundary := isBoundary_of_mem_lineStarts (List.mem_of_getElem? hlast.start_eq)
    have hsplit := sliceOrEmpty_append text _ first second hlast.start_le (Nat.le_of_lt hlt) hboundary
      hfirst hsecond
    have hmore : 0 < (sliceOrEmpty text first second).length := by
      have hbytes := byteLength_sliceOrEmpty text first second (Nat.le_of_lt hlt) hfirst hsecond
      rw [← String.length_toList, List.length_pos_iff]
      intro hnil
      rw [hnil, byteLength] at hbytes
      omega
    rw [← hstart, ← hsplit, String.length_append]
    exact Nat.lt_add_of_pos_right hmore

/-- No two boundaries share a position. -/
theorem eq_of_position_eq {first second : Nat} (hfirst : IsBoundary text first)
    (hsecond : IsBoundary text second) (h : position text first = position text second) :
    first = second := by
  rcases Nat.lt_trichotomy first second with hlt | heq | hgt
  · have hless := position_lt_position hfirst hsecond hlt
    rw [h] at hless
    exact absurd hless (lt_irrefl _)
  · exact heq
  · have hless := position_lt_position hsecond hfirst hgt
    rw [h] at hless
    exact absurd hless (lt_irrefl _)

/-- Lines start in the text or at its end. -/
theorem le_byteLength_of_mem_lineStarts {start : Nat} (h : start ∈ lineStarts text.toList) :
    start ≤ byteLength text.toList :=
  (isBoundary_of_mem_lineStarts h).le_byteLength

/-- A text has no more lines before an offset than bytes. -/
theorem feedsBefore_le_byteLength (text : String) (offset : Nat) :
    feedsBefore text offset ≤ byteLength text.toList := by
  rw [← length_bytes]
  exact List.count_le_length.trans (List.length_take_le' offset (bytes text))

/-- A text has no more characters between two offsets than bytes. -/
theorem charactersBetween_le_byteLength (text : String) (start stop : Nat) :
    charactersBetween text start stop ≤ byteLength text.toList := by
  have hpart : (((bytes text).take stop).drop start).Sublist (bytes text) :=
    (List.drop_sublist start _).trans (List.take_sublist stop _)
  rw [← length_bytes]
  exact List.countP_le_length.trans hpart.length_le

end Counting

end Text

namespace Source

/-- Every offset into a source has a position: no step of the search for it fails. Its line counts the
line feed bytes before the offset, brought into the source, and its character the characters between
the start of that line and the offset, or nothing if the offset splits a character. No number that
occurs on the way exceeds the number of bytes. Over the boundaries of the source positions go up in the
lexicographic order of lines and characters, so no two boundaries share one. -/
theorem position_counts_and_ascends (source : Source) :
    (∀ offset, Text.position? source.text offset = some (source.position offset) ∧
      (source.position offset).line = Text.feedsBefore source.text (min offset source.length) ∧
      (source.position offset).character =
        (if Text.IsBoundary source.text (min offset source.length) then
          Text.charactersBetween source.text
            (Text.lineStartBefore source.text (min offset source.length)) (min offset source.length)
        else 0) ∧
      (source.position offset).line ≤ source.length ∧
      (source.position offset).character ≤ source.length) ∧
    (∀ start ∈ Text.lineStarts source.text.toList, start ≤ source.length) ∧
    (∀ first second, Text.IsBoundary source.text first → Text.IsBoundary source.text second →
      first < second →
        toLex ((source.position first).line, (source.position first).character) <
          toLex ((source.position second).line, (source.position second).character)) ∧
    ∀ first second, Text.IsBoundary source.text first → Text.IsBoundary source.text second →
      source.position first = source.position second → first = second := by
  refine ⟨fun offset => ?_, fun start => Text.le_byteLength_of_mem_lineStarts,
    fun first second => Text.position_lt_position, fun first second => Text.eq_of_position_eq⟩
  have hsome := Text.position?_eq_some source.text offset
  rw [position, Text.position, hsome, Option.getD_some]
  refine ⟨rfl, rfl, rfl, Text.feedsBefore_le_byteLength _ _, ?_⟩
  dsimp only
  split
  · exact Text.charactersBetween_le_byteLength _ _ _
  · exact Nat.zero_le _

/-- A line with a letter of two bytes: an offset that splits the letter, the end of the line and the start
of the next one. -/
theorem position_counts_letter :
    let source : Source := ⟨"a.ts", "é\nb"⟩
    (source.position 1).character = 0 ∧ (source.position 2).character = 1 ∧
      (source.position 3).line = 1 ∧ Text.IsBoundary source.text 2 ∧ Text.IsBoundary source.text 3 ∧
      toLex ((source.position 2).line, (source.position 2).character) <
        toLex ((source.position 3).line, (source.position 3).character) := by
  intro source
  obtain ⟨hcounts, -, hascends, -⟩ := position_counts_and_ascends source
  have hend : Text.IsBoundary source.text 2 := by decide
  have hnext : Text.IsBoundary source.text 3 := by decide
  exact ⟨(hcounts 1).2.2.1.trans (by decide), (hcounts 2).2.2.1.trans (by decide),
    (hcounts 3).2.1.trans (by decide), hend, hnext, hascends 2 3 hend hnext (by decide)⟩

end Source

end Synopsis
