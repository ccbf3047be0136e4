import Synopsis.Proofs.Text.Weight
import Synopsis.Proofs.Text.Words

/-!
# Leaving a piece out of a text

A collapsed text does not show whether a piece of it has been left out exactly when the piece is blank
and, unless it is empty, is not all that keeps two words apart.
-/

namespace Synopsis.Text

/-- Whether the last word of one text and the first word of another would be one word if the texts were
put together. -/
def Joined (left right : List Char) : Prop :=
  (∃ c ∈ left.getLast?, isBlank c = false) ∧ ∃ c ∈ right.head?, isBlank c = false

section Blanks

variable {blanks : List Char}

/-- Blanks at the start of a text belong to no word. -/
theorem words_blanks_append (h : ∀ c ∈ blanks, isBlank c = true) (text : List Char) :
    words (blanks ++ text) = words text := by
  induction blanks with
  | nil => rfl
  | cons c blanks ih =>
    obtain ⟨hc, hblanks⟩ := List.forall_mem_cons.mp h
    rw [List.cons_append, words_cons_blank hc, ih hblanks]

/-- Blanks between two texts cut the words of one off from those of the other. -/
theorem words_append_blanks_append (h : ∀ c ∈ blanks, isBlank c = true) (hne : blanks ≠ [])
    (left right : List Char) : words (left ++ blanks ++ right) = words left ++ words right := by
  obtain ⟨c, blanks, rfl⟩ := List.exists_cons_of_ne_nil hne
  obtain ⟨hc, hblanks⟩ := List.forall_mem_cons.mp h
  rw [List.append_assoc, List.cons_append, words_append_blank hc, words_blanks_append hblanks]

end Blanks

/-- Two texts put together have one word less than they have apart if the word in the middle is one. -/
theorem length_words_append_of_joined {left right : List Char} (h : Joined left right) :
    (words (left ++ right)).length + 1 = (words left).length + (words right).length := by
  obtain ⟨⟨c, hc, hcBlank⟩, d, hd, hdBlank⟩ := h
  obtain ⟨before, rfl⟩ := List.getLast?_eq_some_iff.mp hc
  obtain ⟨after, rfl⟩ := List.head?_eq_some_iff.mp hd
  induction before with
  | nil =>
    rw [List.nil_append, List.singleton_append, length_words_cons hcBlank, length_words_cons hcBlank,
      List.head?_cons, Option.all_some, hdBlank]
    exact Nat.add_comm _ _
  | cons first before ih =>
    have hfirst := ih (by simp)
    cases hblank : isBlank first with
    | true => rwa [List.cons_append, List.cons_append, words_cons_blank hblank, words_cons_blank hblank]
    | false =>
      -- Whether the first character starts a word depends on the character behind it only.
      have hhead : (before ++ [c] ++ d :: after).head? = (before ++ [c]).head? := by
        cases before <;> rfl
      rw [List.cons_append, List.cons_append, length_words_cons hblank, length_words_cons hblank, hhead]
      omega

/-- Two texts put together have the words that they have apart unless the word in the middle is one. -/
theorem words_append_of_not_joined {left right : List Char} (h : ¬ Joined left right) :
    words (left ++ right) = words left ++ words right := by
  rw [Joined, Classical.not_and_iff_not_or_not] at h
  rcases h with hleft | hright
  · rcases List.eq_nil_or_concat left with rfl | ⟨before, c, rfl⟩
    · rfl
    · have hc : isBlank c = true := by simpa using hleft
      rw [List.concat_eq_append, List.append_assoc, List.singleton_append, words_append_blank hc,
        words_append_blank hc]
      simp [words, splitWhere]
  · cases right with
    | nil => simp [words, splitWhere]
    | cons d after =>
      have hd : isBlank d = true := by simpa using hright
      rw [words_append_blank hd, words_cons_blank hd]

/-- Leaving a piece out of a text leaves its collapsed text as it is exactly when the piece is blank
and, unless it is empty, does not keep two words apart. -/
theorem collapse_omit_iff (left piece right : String) :
    collapse (left ++ piece ++ right) = collapse (left ++ right) ↔
      (∀ c ∈ piece.toList, isBlank c = true) ∧ (piece = "" ∨ ¬ Joined left.toList right.toList) := by
  rw [collapse_inj_iff, String.toList_append, String.toList_append, String.toList_append]
  constructor
  · intro h
    have hblank : ∀ c ∈ piece.toList, isBlank c = true := by
      have hweight := congrArg (fun found => weight ink found.flatten) h
      simp only [weight_flatten_words ink ink_of_blank, weight_append] at hweight
      have hzero : weight ink piece.toList = 0 := by omega
      exact fun c hc => blank_of_ink ((weight_eq_zero_iff ink _).mp hzero c hc)
    refine ⟨hblank, ?_⟩
    by_cases hempty : piece.toList = []
    · exact Or.inl (String.toList_eq_nil_iff.mp hempty)
    · refine Or.inr fun hjoined => ?_
      have hlength := length_words_append_of_joined hjoined
      rw [← h, words_append_blanks_append hblank hempty, List.length_append] at hlength
      omega
  · rintro ⟨hblank, rfl | hapart⟩
    · rw [String.toList_empty, List.append_nil]
    · by_cases hempty : piece.toList = []
      · rw [hempty, List.append_nil]
      · rw [words_append_blanks_append hblank hempty, words_append_of_not_joined hapart]

end Synopsis.Text
