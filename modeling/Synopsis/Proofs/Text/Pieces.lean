import Synopsis.Proofs.Text.Weight

/-!
# Texts in pieces

A stretch of a text is written in pieces when it is cut at ascending offsets and each piece is written
if it is a slice. The pieces are the whole stretch exactly when every cut is a boundary: a cut inside a
character loses that character, and with it every weight that the character has.
-/

namespace Synopsis.Text

/-- Whether cuts stand in ascending order between two offsets. -/
def Ascending (start stop : Nat) : List Nat → Prop
  | [] => start ≤ stop
  | cut :: rest => start ≤ cut ∧ Ascending cut stop rest

/-- The text between two offsets, written piece by piece between cuts. -/
def pieces (text : String) (start stop : Nat) : List Nat → String
  | [] => sliceOrEmpty text start stop
  | cut :: rest => sliceOrEmpty text start cut ++ pieces text cut stop rest

/-- Cuts before and behind a cut are in order on their own. -/
theorem ascending_append_cons (start middle stop : Nat) (left right : List Nat) :
    Ascending start stop (left ++ middle :: right) ↔
      Ascending start middle left ∧ Ascending middle stop right := by
  induction left generalizing start with
  | nil => rfl
  | cons cut left ih => simp only [List.cons_append, Ascending, ih, and_assoc]

/-- The pieces before and behind a cut are written one after the other. -/
theorem pieces_append_cons (text : String) (start middle stop : Nat) (left right : List Nat) :
    pieces text start stop (left ++ middle :: right) =
      pieces text start middle left ++ pieces text middle stop right := by
  induction left generalizing start with
  | nil => rfl
  | cons cut left ih => simp only [List.cons_append, pieces, ih, String.append_assoc]

/-- Cuts in ascending order leave the ends in order. -/
theorem Ascending.le {start stop : Nat} {cuts : List Nat} (h : Ascending start stop cuts) :
    start ≤ stop := by
  induction cuts generalizing start with
  | nil => exact h
  | cons cut rest ih => exact Nat.le_trans h.1 (ih h.2)

/-- Pieces between boundaries are together the whole stretch. -/
theorem pieces_eq_sliceOrEmpty (text : String) {start stop : Nat} {cuts : List Nat}
    (hasc : Ascending start stop cuts) (hstart : IsBoundary text start) (hstop : IsBoundary text stop)
    (hcuts : ∀ cut ∈ cuts, IsBoundary text cut) :
    pieces text start stop cuts = sliceOrEmpty text start stop := by
  induction cuts generalizing start with
  | nil => rfl
  | cons cut rest ih =>
    have hcut : IsBoundary text cut := hcuts cut List.mem_cons_self
    rw [pieces, ih hasc.2 hcut fun other hother => hcuts other (List.mem_cons_of_mem _ hother)]
    exact sliceOrEmpty_append text start cut stop hasc.1 hasc.2.le hstart hcut hstop

/-- Pieces weigh at most what the text weighs between their ends. -/
theorem weightBefore_add_weight_pieces_le (heft : Char → Nat) (text : String) {start stop : Nat}
    {cuts : List Nat} (hasc : Ascending start stop cuts) :
    weightBefore heft start text.toList + weight heft (pieces text start stop cuts).toList ≤
      weightBefore heft stop text.toList := by
  induction cuts generalizing start with
  | nil => exact weightBefore_add_weight_sliceOrEmpty_le heft text hasc
  | cons cut rest ih =>
    have hfirst := weightBefore_add_weight_sliceOrEmpty_le heft text hasc.1
    have hrest := ih hasc.2
    rw [pieces, String.toList_append, weight_append]
    omega

/-- Whether an offset falls inside a character of a text, which has the part `before` in front of
it. -/
structure Splits (text : String) (before : List Char) (c : Char) (offset : Nat) : Prop where
  standing : before ++ [c] <+: text.toList
  above : byteLength before < offset
  below : offset < byteLength before + c.utf8Size

/-- A boundary does not lie inside a character. -/
theorem IsBoundary.outside {text : String} {offset : Nat} (h : IsBoundary text offset)
    {before : List Char} {c : Char} (hstanding : before ++ [c] <+: text.toList) :
    offset ≤ byteLength before ∨ byteLength before + c.utf8Size ≤ offset := by
  obtain ⟨left, right, htext, rfl⟩ := h
  have hleft : left <+: text.toList := ⟨right, htext.symm⟩
  rcases List.prefix_or_prefix_of_prefix hleft hstanding with hshort | ⟨extra, rfl⟩
  · rcases List.prefix_concat_iff.mp hshort with rfl | ⟨extra, rfl⟩
    · right
      simp [byteLength]
    · left
      simp
  · right
    simp [byteLength]

/-- No offset inside a character is a boundary. -/
theorem Splits.not_isBoundary {text : String} {before : List Char} {c : Char} {offset : Nat}
    (h : Splits text before c offset) : ¬ IsBoundary text offset := by
  intro hboundary
  have habove := h.above
  have hbelow := h.below
  rcases hboundary.outside h.standing with hle | hle <;> omega

/-- An offset within a list of characters is at the end of one of its prefixes or inside a character. -/
theorem exists_prefix_or_splits (text : List Char) (offset : Nat) (h : offset ≤ byteLength text) :
    (∃ before after, text = before ++ after ∧ byteLength before = offset) ∨
      ∃ before c, before ++ [c] <+: text ∧ byteLength before < offset ∧
        offset < byteLength before + c.utf8Size := by
  induction text generalizing offset with
  | nil =>
    rw [byteLength] at h
    exact Or.inl ⟨[], [], rfl, by simp [byteLength]; omega⟩
  | cons c rest ih =>
    rw [byteLength] at h
    by_cases hfits : c.utf8Size ≤ offset
    · rcases ih (offset - c.utf8Size) (by omega) with
        ⟨before, after, rfl, hlength⟩ | ⟨before, d, hstanding, habove, hbelow⟩
      · exact Or.inl ⟨c :: before, after, rfl, by rw [byteLength]; omega⟩
      · refine Or.inr ⟨c :: before, d, List.cons_prefix_cons.mpr ⟨rfl, hstanding⟩, ?_, ?_⟩
        · rw [byteLength]
          omega
        · rw [byteLength]
          omega
    · by_cases hzero : offset = 0
      · exact Or.inl ⟨[], c :: rest, rfl, hzero.symm⟩
      · refine Or.inr ⟨[], c, ⟨rest, rfl⟩, ?_, ?_⟩
        · rw [byteLength]
          omega
        · rw [byteLength]
          omega

/-- An offset within a text that is no boundary lies inside a character. -/
theorem exists_splits {text : String} {offset : Nat} (hle : offset ≤ byteLength text.toList)
    (h : ¬ IsBoundary text offset) : ∃ before c, Splits text before c offset := by
  rcases exists_prefix_or_splits text.toList offset hle with hboundary | ⟨before, c, hs, ha, hb⟩
  · contradiction
  · exact ⟨before, c, hs, ha, hb⟩

/-- A character adds its weight where it ends. -/
theorem weightBefore_lt_of_splits (heft : Char → Nat) {text : String} {before : List Char} {c : Char}
    {start stop : Nat} (h : Splits text before c start) (hc : 0 < heft c)
    (hstop : byteLength before + c.utf8Size ≤ stop) :
    weightBefore heft start text.toList < weightBefore heft stop text.toList := by
  obtain ⟨after, htext⟩ := h.standing
  have habove := h.above
  have hbelow := h.below
  have hsplit : text.toList = before ++ (c :: after) := by
    rw [← htext, List.append_assoc, List.singleton_append]
  have hstart := weightBefore_append heft before (c :: after) (start - byteLength before)
  have hend := weightBefore_append heft before (c :: after) (stop - byteLength before)
  rw [Nat.add_sub_cancel' (by omega), ← hsplit, weightBefore, if_neg (by omega)] at hstart
  rw [Nat.add_sub_cancel' (by omega), ← hsplit, weightBefore, if_pos (by omega)] at hend
  omega

/-- Nothing is written from inside a character on. -/
theorem Splits.sliceOrEmpty_eq {text : String} {before : List Char} {c : Char} {start : Nat}
    (h : Splits text before c start) (stop : Nat) : sliceOrEmpty text start stop = "" := by
  rw [sliceOrEmpty]
  cases hslice : slice? text start stop with
  | none => rfl
  | some piece =>
    have hboundary := ((slice?_isSome_iff text start stop).mp (by rw [hslice]; rfl)).2.1
    exact absurd hboundary h.not_isBoundary

/-- Pieces that start inside a character and go on past it lose its weight. -/
theorem weightBefore_add_weight_pieces_lt (heft : Char → Nat) {text : String} {before : List Char}
    {c : Char} {start stop : Nat} {cuts : List Nat} (hsplits : Splits text before c start)
    (hc : 0 < heft c) (hstop : byteLength before + c.utf8Size ≤ stop)
    (hasc : Ascending start stop cuts) :
    weightBefore heft start text.toList + weight heft (pieces text start stop cuts).toList <
      weightBefore heft stop text.toList := by
  induction cuts generalizing start with
  | nil =>
    rw [pieces, hsplits.sliceOrEmpty_eq]
    exact weightBefore_lt_of_splits heft hsplits hc hstop
  | cons cut rest ih =>
    rw [pieces, hsplits.sliceOrEmpty_eq, String.empty_append]
    by_cases hinside : cut < byteLength before + c.utf8Size
    · have hnext : Splits text before c cut :=
        ⟨hsplits.standing, Nat.lt_of_lt_of_le hsplits.above hasc.1, hinside⟩
      exact Nat.lt_of_le_of_lt
        (Nat.add_le_add_right (weightBefore_mono heft text.toList hasc.1) _) (ih hnext hasc.2)
    · have hlost := weightBefore_lt_of_splits heft hsplits hc (Nat.le_of_not_lt hinside)
      have hrest := weightBefore_add_weight_pieces_le heft text hasc.2
      omega

/-- A stretch between boundaries with a cut inside a character weighs less in pieces than as a whole. -/
theorem weight_pieces_lt (heft : Char → Nat) {text : String} {before : List Char} {c : Char}
    {start cut stop : Nat} {cuts : List Nat} (hasc : Ascending start stop cuts)
    (hstart : IsBoundary text start) (hstop : IsBoundary text stop) (hcut : cut ∈ cuts)
    (hsplits : Splits text before c cut) (hc : 0 < heft c) :
    weight heft (pieces text start stop cuts).toList <
      weight heft (sliceOrEmpty text start stop).toList := by
  have hwhole := weightBefore_add_weight_slice heft
    (slice?_eq_some_sliceOrEmpty text start stop hasc.le hstart hstop)
  obtain ⟨left, right, rfl⟩ := List.append_of_mem hcut
  obtain ⟨hleft, hright⟩ := (ascending_append_cons start cut stop left right).mp hasc
  have hend : byteLength before + c.utf8Size ≤ stop := by
    have habove := hsplits.above
    have hle := hright.le
    rcases hstop.outside hsplits.standing with hbefore | hbehind
    · omega
    · exact hbehind
  have hfirst := weightBefore_add_weight_pieces_le heft text hleft
  have hsecond := weightBefore_add_weight_pieces_lt heft hsplits hc hend hright
  rw [pieces_append_cons, String.toList_append, weight_append]
  omega

/-- The pieces between boundaries are the whole stretch exactly when every cut is a boundary. -/
theorem pieces_eq_sliceOrEmpty_iff (text : String) {start stop : Nat} {cuts : List Nat}
    (hasc : Ascending start stop cuts) (hstart : IsBoundary text start) (hstop : IsBoundary text stop) :
    pieces text start stop cuts = sliceOrEmpty text start stop ↔ ∀ cut ∈ cuts, IsBoundary text cut := by
  refine ⟨?_, pieces_eq_sliceOrEmpty text hasc hstart hstop⟩
  intro hwhole cut hcut
  by_cases hboundary : IsBoundary text cut
  · exact hboundary
  · have hle : cut ≤ byteLength text.toList := by
      obtain ⟨left, right, rfl⟩ := List.append_of_mem hcut
      exact Nat.le_trans ((ascending_append_cons start cut stop left right).mp hasc).2.le
        hstop.le_byteLength
    obtain ⟨before, c, hsplits⟩ := exists_splits hle hboundary
    have hlt := weight_pieces_lt (fun _ => 1) hasc hstart hstop hcut hsplits Nat.one_pos
    rw [hwhole] at hlt
    exact absurd hlt (Nat.lt_irrefl _)

end Synopsis.Text
