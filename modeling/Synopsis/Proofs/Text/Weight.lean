import Synopsis.Proofs.Text.Slice
import Synopsis.Proofs.Text.Words

/-!
# Weights of texts

A text weighs the sum of the weights of its characters, whatever they are. A slice weighs what the text
weighs up to its end, less what it weighs up to its start, where a character counts from the offset at
which it ends. Collapsing a text keeps every weight under which blanks weigh nothing.
-/

namespace Synopsis.Text

variable (heft : Char → Nat)

/-- The weight of a text. -/
def weight : List Char → Nat
  | [] => 0
  | c :: rest => heft c + weight rest

/-- The weight of the characters of a text that end at or before an offset. -/
def weightBefore : Nat → List Char → Nat
  | _, [] => 0
  | offset, c :: rest =>
    if c.utf8Size ≤ offset then heft c + weightBefore (offset - c.utf8Size) rest else 0

/-- Two texts in a row weigh what they weigh separately. -/
@[simp] theorem weight_append (left right : List Char) :
    weight heft (left ++ right) = weight heft left + weight heft right := by
  induction left with
  | nil => simp [weight]
  | cons c left ih => simp only [List.cons_append, weight, ih, Nat.add_assoc]

/-- A text weighs nothing exactly when none of its characters does. -/
theorem weight_eq_zero_iff (text : List Char) : weight heft text = 0 ↔ ∀ c ∈ text, heft c = 0 := by
  induction text with
  | nil => simp [weight]
  | cons c rest ih => rw [weight, Nat.add_eq_zero_iff, ih, List.forall_mem_cons]

/-- Behind a prefix of a text the weight goes on from that of the prefix. -/
theorem weightBefore_append (before after : List Char) (offset : Nat) :
    weightBefore heft (byteLength before + offset) (before ++ after) =
      weight heft before + weightBefore heft offset after := by
  induction before with
  | nil => simp [byteLength, weight]
  | cons c before ih =>
    have hfits : c.utf8Size ≤ c.utf8Size + byteLength before + offset := by omega
    have hrest : c.utf8Size + byteLength before + offset - c.utf8Size = byteLength before + offset := by
      omega
    rw [List.cons_append, byteLength, weightBefore, if_pos hfits, hrest, ih, weight, Nat.add_assoc]

/-- No character ends at the start of a text. -/
theorem weightBefore_zero (text : List Char) : weightBefore heft 0 text = 0 := by
  cases text with
  | nil => rfl
  | cons c rest =>
    have hpos := c.utf8Size_pos
    rw [weightBefore, if_neg (by omega)]

/-- The weight up to an offset does not fall as the offset rises. -/
theorem weightBefore_mono (text : List Char) {start stop : Nat} (h : start ≤ stop) :
    weightBefore heft start text ≤ weightBefore heft stop text := by
  induction text generalizing start stop with
  | nil => exact Nat.le_refl 0
  | cons c rest ih =>
    rw [weightBefore, weightBefore]
    by_cases hstart : c.utf8Size ≤ start
    · rw [if_pos hstart, if_pos (Nat.le_trans hstart h)]
      exact Nat.add_le_add_left (ih (Nat.sub_le_sub_right h _)) _
    · rw [if_neg hstart]
      exact Nat.zero_le _

/-- A slice weighs what the text weighs between its ends. -/
theorem weightBefore_add_weight_slice {text piece : String} {start stop : Nat}
    (h : slice? text start stop = some piece) :
    weightBefore heft start text.toList + weight heft piece.toList =
      weightBefore heft stop text.toList := by
  obtain ⟨before, after, htext, rfl, rfl⟩ := (slice?_eq_some_iff _ _ _ _).mp h
  have hstart := weightBefore_append heft before (piece.toList ++ after) 0
  have hstop := weightBefore_append heft (before ++ piece.toList) after 0
  rw [weightBefore_zero, Nat.add_zero, Nat.add_zero, ← List.append_assoc, ← htext] at hstart
  rw [weightBefore_zero, Nat.add_zero, Nat.add_zero, byteLength_append, weight_append, ← htext] at hstop
  rw [hstart, hstop]

/-- A slice that may be missing weighs at most what the text weighs between its ends. -/
theorem weightBefore_add_weight_sliceOrEmpty_le (text : String) {start stop : Nat} (h : start ≤ stop) :
    weightBefore heft start text.toList + weight heft (sliceOrEmpty text start stop).toList ≤
      weightBefore heft stop text.toList := by
  rw [sliceOrEmpty]
  cases hslice : slice? text start stop with
  | none => exact weightBefore_mono heft text.toList h
  | some piece => exact Nat.le_of_eq (weightBefore_add_weight_slice heft hslice)

/-- A text weighs as much without its weightless characters. -/
theorem weight_filter {isWeightless : Char → Bool} (h : ∀ c, isWeightless c = true → heft c = 0)
    (text : List Char) : weight heft (text.filter (!isWeightless ·)) = weight heft text := by
  induction text with
  | nil => rfl
  | cons c rest ih =>
    cases hc : isWeightless c with
    | true => simp [hc, weight, h c hc, ih]
    | false => simp [hc, weight, ih]

/-- Words with weightless spaces between them weigh what the words weigh. -/
theorem weight_unwords (hspace : heft ' ' = 0) (pieces : List (List Char)) :
    weight heft (unwords pieces) = weight heft pieces.flatten := by
  induction pieces with
  | nil => rfl
  | cons piece pieces ih =>
    cases pieces with
    | nil => simp [unwords]
    | cons second others =>
      have hflat : (piece :: second :: others).flatten = piece ++ (second :: others).flatten := rfl
      rw [unwords_cons_cons, hflat, weight_append, weight_append, weight, hspace, Nat.zero_add, ih]

/-- The words of a text weigh what the text weighs if blanks weigh nothing. -/
theorem weight_flatten_words (hblank : ∀ c, isBlank c = true → heft c = 0) (text : List Char) :
    weight heft (words text).flatten = weight heft text := by
  rw [flatten_words, weight_filter heft hblank]

/-- Collapsing a text keeps its weight if blanks weigh nothing. -/
theorem weight_collapse (hblank : ∀ c, isBlank c = true → heft c = 0) (text : String) :
    weight heft (collapse text).toList = weight heft text.toList := by
  rw [collapse_eq_unwords, String.toList_ofList, weight_unwords heft (hblank ' ' (by decide)),
    weight_flatten_words heft hblank]

/-- The weight that counts the characters other than blanks. -/
def ink (c : Char) : Nat := if isBlank c then 0 else 1

/-- Blanks are not counted. -/
theorem ink_of_blank (c : Char) (h : isBlank c = true) : ink c = 0 := if_pos h

/-- All other characters are counted. -/
theorem ink_of_not_blank {c : Char} (h : isBlank c = false) : ink c = 1 := by
  rw [ink, h]
  rfl

/-- A character that is not counted is a blank. -/
theorem blank_of_ink {c : Char} (h : ink c = 0) : isBlank c = true := by
  cases hblank : isBlank c with
  | true => rfl
  | false =>
    rw [ink_of_not_blank hblank] at h
    contradiction

end Synopsis.Text
