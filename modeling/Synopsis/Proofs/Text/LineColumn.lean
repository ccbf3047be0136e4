import Synopsis.Proofs.Text.Position

/-!
# Reported places lead back to their bytes

A reading error is reported by its line and by the bytes before it on that line. To show it, the lines
before it are added up; to name its line, the line is searched for in the table of line starts. The two
agree: the first lines together reach up to the start of the next one, so a reported place leads back to
the byte in front of it and that byte lies on the reported line.
-/

namespace Synopsis

namespace Text

section Adding

/-- The table of line starts moves with the text. -/
theorem lineStartsFrom_add (shift offset : Nat) (text : List Char) :
    lineStartsFrom (shift + offset) text = (lineStartsFrom offset text).map (shift + ·) := by
  induction text generalizing offset with
  | nil => rfl
  | cons c rest ih => by_cases hc : c = '\n' <;> simp [lineStartsFrom, hc, Nat.add_assoc, ih]

/-- A character that is no line feed goes to the first line. -/
theorem totalLength_take_cons {c : Char} (hc : c ≠ '\n') (rest : List Char) (count : Nat) :
    totalLength ((fullLines (c :: rest)).take (count + 1)) =
      c.utf8Size + totalLength ((fullLines rest).take (count + 1)) := by
  rw [fullLines, if_neg hc]
  cases fullLines rest with
  | nil => simp [totalLength, byteLength]
  | cons line lines => simp [totalLength, byteLength, Nat.add_assoc]

/-- The first lines of a text together reach up to the start of the next line, or to the end of the text
where there is none. -/
theorem totalLength_take (text : List Char) (count : Nat) :
    totalLength ((fullLines text).take count) =
      (lineStarts text)[count]?.getD (byteLength text) := by
  induction text generalizing count with
  | nil => cases count <;> simp [fullLines, totalLength, lineStarts, lineStartsFrom, byteLength]
  | cons c rest ih =>
    cases count with
    | zero => simp [totalLength, lineStarts]
    | succ count =>
      by_cases hc : c = '\n'
      · have hnext : (lineStarts (c :: rest))[count + 1]? =
            (lineStarts rest)[count]?.map (c.utf8Size + ·) := by
          rw [lineStarts, lineStartsFrom, if_pos hc, Nat.zero_add, List.getElem?_cons_succ,
            ← List.getElem?_map, lineStarts, List.map_cons, ← lineStartsFrom_add]
          rfl
        rw [hnext, byteLength, Option.getD_map, ← ih count, fullLines, if_pos hc]
        simp [totalLength, byteLength]
      · have hnext : (lineStarts (c :: rest))[count + 1]? =
            (lineStarts rest)[count + 1]?.map (c.utf8Size + ·) := by
          rw [lineStarts, lineStartsFrom, if_neg hc, Nat.zero_add, List.getElem?_cons_succ,
            lineStarts, List.getElem?_cons_succ, ← List.getElem?_map, ← lineStartsFrom_add]
          rfl
        rw [hnext, byteLength, Option.getD_map, ← ih (count + 1), totalLength_take_cons hc]

end Adding

section Places

variable {text : String} {offset : Nat}

/-- A place is reported by the line feeds before it and by its distance from the start of its line. -/
theorem lineColumn_eq (h : offset ≤ byteLength text.toList) :
    lineColumn text.toList offset =
      ⟨feedsBefore text offset + 1, offset - lineStartBefore text offset⟩ := by
  obtain ⟨whole, part, rest, hlined, hstart, hfeeds⟩ := exists_lined text h
  have hearlier : (lineStartsFrom 0 text.toList).takeWhile (· ≤ offset) = feedEnds 0 whole := by
    have hbefore : ∀ stop ∈ feedEnds 0 whole, decide (stop ≤ offset) = true := by
      intro stop hstop
      have hbounds := bounds_of_mem_feedEnds hstop
      have hwhole := hlined.length_whole_le
      rw [decide_eq_true_eq]
      omega
    have hbehind : (feedEnds offset rest).takeWhile (· ≤ offset) = [] := by
      rw [List.takeWhile_eq_nil_iff]
      intro hlength
      have hbounds := bounds_of_mem_feedEnds (List.get_mem _ ⟨0, hlength⟩)
      rw [decide_eq_true_eq]
      omega
    rw [lineStartsFrom_eq_feedEnds, ← bytes_eq_encode, hlined.feedEnds_eq,
      List.takeWhile_append_of_pos hbefore, hbehind, List.append_nil]
  rw [lineColumn, hearlier, hlined.getLast_feedEnds, length_feedEnds, hstart, hfeeds]

/-- An offset that lies on the line of a later one has the same number of line feeds before it. -/
theorem feedsBefore_eq_of_lineStartBefore_le {earlier : Nat} (h : offset ≤ byteLength text.toList)
    (hearlier : earlier ≤ offset) (hstart : lineStartBefore text offset ≤ earlier) :
    feedsBefore text earlier = feedsBefore text offset := by
  have hlast := lastStart_lineStarts text h
  have hsame : LastStart (lineStarts text.toList) earlier (feedsBefore text offset)
      (lineStartBefore text offset) :=
    ⟨hlast.start_eq, hstart, fun later next hlater hnext =>
      Nat.lt_of_le_of_lt hearlier (hlast.lt_later later next hlater hnext)⟩
  have hline := lineOf?_of_lastStart (pairwise_lineStarts _) hsame
  rw [lineOf?_of_lastStart (pairwise_lineStarts _)
    (lastStart_lineStarts text (Nat.le_trans hearlier h)), Option.some.injEq] at hline
  exact hline

/-- A reported place leads back to the byte in front of it, or to the start of its line if it is there. -/
theorem offsetOf_eq (h : offset ≤ byteLength text.toList) :
    offsetOf text.toList ⟨feedsBefore text offset + 1, offset - lineStartBefore text offset⟩ =
      if 0 < offset - lineStartBefore text offset then offset - 1 else offset := by
  have hlast := lastStart_lineStarts text h
  have htotal : totalLength ((fullLines text.toList).take (feedsBefore text offset)) =
      lineStartBefore text offset := by
    rw [totalLength_take, hlast.start_eq, Option.getD_some]
  have hle := hlast.start_le
  rw [offsetOf]
  simp only [Nat.add_sub_cancel, htotal]
  split <;> omega

/-- The offset to which a reported place leads back lies on the same line. -/
theorem feedsBefore_offsetOf (h : offset ≤ byteLength text.toList) :
    feedsBefore text
        (offsetOf text.toList ⟨feedsBefore text offset + 1, offset - lineStartBefore text offset⟩) =
      feedsBefore text offset := by
  have hle := (lastStart_lineStarts text h).start_le
  rw [offsetOf_eq h]
  apply feedsBefore_eq_of_lineStartBefore_le h <;> split <;> omega

end Places

end Text

/-- Take any number of bytes of a source and the place that an error reports there: the line feed bytes
before it, counted from one, and its distance from the start of the line. That place leads back to the
byte in front of it, or to the bytes taken if they end a line, and the position of that byte is on the
reported line. -/
theorem Source.reported_place_leads_back (source : Source) (offset : Nat)
    (h : offset ≤ source.length) :
    let place : Text.LineColumn := ⟨Text.feedsBefore source.text offset + 1,
      offset - Text.lineStartBefore source.text offset⟩
    Text.lineColumn source.text.toList offset = place ∧
      Text.offsetOf source.text.toList place =
        (if 0 < place.column then offset - 1 else offset) ∧
      (source.position (Text.offsetOf source.text.toList place)).line = place.line - 1 := by
  intro place
  have hback : Text.offsetOf source.text.toList place ≤ Text.byteLength source.text.toList :=
    Nat.min_le_right _ _
  refine ⟨Text.lineColumn_eq h, Text.offsetOf_eq h, ?_⟩
  rw [position, Text.position, Text.position?_eq_some, Option.getD_some, Nat.min_eq_left hback]
  exact Text.feedsBefore_offsetOf h

/-- A fault right behind a line feed, and one inside the letter of two bytes that follows. -/
theorem Source.reported_place_leads_back_letter :
    let source : Source := ⟨"tree.json", "[\né"⟩
    Text.lineColumn source.text.toList 2 = ⟨2, 0⟩ ∧ Text.offsetOf source.text.toList ⟨2, 0⟩ = 2 ∧
      Text.lineColumn source.text.toList 3 = ⟨2, 1⟩ ∧ Text.offsetOf source.text.toList ⟨2, 1⟩ = 2 ∧
      (source.position 2).line = 1 := by
  intro source
  have hbehind : (⟨Text.feedsBefore source.text 2 + 1, 2 - Text.lineStartBefore source.text 2⟩ :
      Text.LineColumn) = ⟨2, 0⟩ := by decide
  have hinside : (⟨Text.feedsBefore source.text 3 + 1, 3 - Text.lineStartBefore source.text 3⟩ :
      Text.LineColumn) = ⟨2, 1⟩ := by decide
  obtain ⟨hplace, hback, -⟩ := source.reported_place_leads_back 2 (by decide)
  obtain ⟨hplace', hback', hline⟩ := source.reported_place_leads_back 3 (by decide)
  rw [hbehind] at hplace hback
  rw [hinside] at hplace' hback' hline
  rw [hback'] at hline
  exact ⟨hplace, hback, hplace', hback', hline⟩

end Synopsis
