import Synopsis.Proofs.Text.Words

/-!
# Squeezing blanks

Squeezing a text writes one space for each maximal run of blanks and trims nothing, so it still shows
whether the text starts or ends with a blank. A run may go on from one text into the next, which is why
texts that are put together are squeezed from left to right with the knowledge whether a run is open.
Texts that are equal once squeezed may be exchanged within any longer text, and they have the same words.
-/

namespace Synopsis.Text

/-- The characters of a text with one space for each run of blanks, and with none for a run that is open
at the start of the text. -/
def squeezeFrom : Bool → List Char → List Char
  | _, [] => []
  | inRun, c :: rest =>
    if isBlank c then
      if inRun then squeezeFrom true rest else ' ' :: squeezeFrom true rest
    else c :: squeezeFrom false rest

/-- A text with one space for each maximal run of blanks. -/
def squeeze (text : String) : String := String.ofList (squeezeFrom false text.toList)

/-- Whether a run of blanks is open behind a text, given whether one is open at its start. -/
def openBehind : Bool → List Char → Bool
  | inRun, [] => inRun
  | _, c :: rest => if isBlank c then openBehind true rest else openBehind false rest

section Steps

variable {c : Char} (inRun : Bool) (rest : List Char)

/-- A blank outside of a run opens one. -/
theorem squeezeFrom_false_blank (h : isBlank c = true) :
    squeezeFrom false (c :: rest) = ' ' :: squeezeFrom true rest := by
  simp [squeezeFrom, h]

/-- A blank in a run is left out. -/
theorem squeezeFrom_true_blank (h : isBlank c = true) :
    squeezeFrom true (c :: rest) = squeezeFrom true rest := by
  simp [squeezeFrom, h]

/-- Any other character is kept and ends a run. -/
theorem squeezeFrom_of_not_blank (h : isBlank c = false) :
    squeezeFrom inRun (c :: rest) = c :: squeezeFrom false rest := by
  simp [squeezeFrom, h]

/-- Behind a character a run is open exactly when the character is a blank. -/
theorem openBehind_cons : openBehind inRun (c :: rest) = openBehind (isBlank c) rest := by
  rw [openBehind]
  cases isBlank c <;> rfl

end Steps

/-- The second of two texts in a row is squeezed with the run that the first leaves open. -/
theorem squeezeFrom_append (inRun : Bool) (left right : List Char) :
    squeezeFrom inRun (left ++ right) =
      squeezeFrom inRun left ++ squeezeFrom (openBehind inRun left) right := by
  induction left generalizing inRun with
  | nil => rfl
  | cons c left ih =>
    rw [List.cons_append, openBehind_cons]
    cases hc : isBlank c with
    | false => rw [squeezeFrom_of_not_blank _ _ hc, squeezeFrom_of_not_blank _ _ hc, ih, List.cons_append]
    | true =>
      cases inRun with
      | false => rw [squeezeFrom_false_blank _ hc, squeezeFrom_false_blank _ hc, ih, List.cons_append]
      | true => rw [squeezeFrom_true_blank _ hc, squeezeFrom_true_blank _ hc, ih]

/-- Squeezing a text a second time changes nothing. -/
theorem squeezeFrom_squeezeFrom (inRun : Bool) (text : List Char) :
    squeezeFrom inRun (squeezeFrom inRun text) = squeezeFrom inRun text := by
  induction text generalizing inRun with
  | nil => rfl
  | cons c rest ih =>
    cases hc : isBlank c with
    | false => rw [squeezeFrom_of_not_blank _ _ hc, squeezeFrom_of_not_blank _ _ hc, ih]
    | true =>
      cases inRun with
      | false => rw [squeezeFrom_false_blank _ hc, squeezeFrom_false_blank _ isBlank_space, ih]
      | true => rw [squeezeFrom_true_blank _ hc, ih]

/-- A squeezed text leaves a run open exactly when the text does. -/
theorem openBehind_squeezeFrom (inRun : Bool) (text : List Char) :
    openBehind inRun (squeezeFrom inRun text) = openBehind inRun text := by
  induction text generalizing inRun with
  | nil => rfl
  | cons c rest ih =>
    rw [openBehind_cons]
    cases hc : isBlank c with
    | false => rw [squeezeFrom_of_not_blank _ _ hc, openBehind_cons, hc, ih]
    | true =>
      cases inRun with
      | false => rw [squeezeFrom_false_blank _ hc, openBehind_cons, isBlank_space, ih]
      | true => rw [squeezeFrom_true_blank _ hc, ih]

/-- A text that was squeezed by itself can still be squeezed behind an open run. -/
theorem squeezeFrom_squeezeFrom_false (inRun : Bool) (text : List Char) :
    squeezeFrom inRun (squeezeFrom false text) = squeezeFrom inRun text := by
  cases inRun with
  | false => exact squeezeFrom_squeezeFrom false text
  | true =>
    cases text with
    | nil => rfl
    | cons c rest =>
      cases hc : isBlank c with
      | false =>
        rw [squeezeFrom_of_not_blank _ _ hc, squeezeFrom_of_not_blank _ _ hc,
          squeezeFrom_of_not_blank _ _ hc, squeezeFrom_squeezeFrom]
      | true =>
        rw [squeezeFrom_false_blank _ hc, squeezeFrom_true_blank _ isBlank_space,
          squeezeFrom_true_blank _ hc, squeezeFrom_squeezeFrom]

/-- Squeezing changes no words, whatever stands in front of the text; behind a blank, the text may also
be squeezed as the continuation of a run. -/
theorem words_append_squeezeFrom (text : List Char) :
    (∀ before, words (before ++ squeezeFrom false text) = words (before ++ text)) ∧
      words (squeezeFrom true text) = words text := by
  -- A kept character joins what stands before it, and a blank cuts it off: hence both forms at once.
  induction text with
  | nil => exact ⟨fun _ => rfl, rfl⟩
  | cons c rest ih =>
    obtain ⟨hplain, hrun⟩ := ih
    cases hc : isBlank c with
    | false =>
      have hkept (before : List Char) :
          words (before ++ c :: squeezeFrom false rest) = words (before ++ c :: rest) := by
        simpa only [List.append_assoc, List.singleton_append] using hplain (before ++ [c])
      rw [squeezeFrom_of_not_blank _ _ hc, squeezeFrom_of_not_blank _ _ hc]
      exact ⟨hkept, hkept []⟩
    | true =>
      rw [squeezeFrom_false_blank _ hc, squeezeFrom_true_blank _ hc, words_cons_blank hc]
      refine ⟨fun before => ?_, hrun⟩
      rw [words_append_blank isBlank_space, words_append_blank hc, hrun]

/-- Texts that are equal once squeezed may be exchanged on either side of a boundary. -/
theorem squeeze_append_congr {left left' right right' : String} (hleft : squeeze left = squeeze left')
    (hright : squeeze right = squeeze right') : squeeze (left ++ right) = squeeze (left' ++ right') := by
  have hleft' : squeezeFrom false left.toList = squeezeFrom false left'.toList := String.ofList_inj.mp hleft
  have hright' : squeezeFrom false right.toList = squeezeFrom false right'.toList :=
    String.ofList_inj.mp hright
  have hopen : openBehind false left.toList = openBehind false left'.toList := by
    rw [← openBehind_squeezeFrom, hleft', openBehind_squeezeFrom]
  have hbehind (inRun : Bool) : squeezeFrom inRun right.toList = squeezeFrom inRun right'.toList := by
    rw [← squeezeFrom_squeezeFrom_false, hright', squeezeFrom_squeezeFrom_false]
  rw [squeeze, squeeze, String.toList_append, String.toList_append, squeezeFrom_append,
    squeezeFrom_append, hleft', hopen, hbehind]

/-- Texts that are equal once squeezed are equal once collapsed. -/
theorem collapse_eq_of_squeeze_eq {text other : String} (h : squeeze text = squeeze other) :
    collapse text = collapse other := by
  have hwords (text : String) : words (squeeze text).toList = words text.toList := by
    rw [squeeze, String.toList_ofList]
    exact (words_append_squeezeFrom text.toList).1 []
  rw [collapse, collapse, ← hwords text, h, hwords other]

end Synopsis.Text
