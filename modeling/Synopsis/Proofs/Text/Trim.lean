import Synopsis.Proofs.Text.Words

/-!
# Trimmed texts

A text is trimmed when no blank stands at either end of it. Trimming finds the one trimmed text that is
left when blanks are taken away from both ends.
-/

namespace Synopsis.Text

/-- Whether a text has no blank at its start and none at its end. -/
structure Trimmed (text : List Char) : Prop where
  head : ∀ c ∈ text.head?, isBlank c = false
  last : ∀ c ∈ text.getLast?, isBlank c = false

/-- A text without blanks is trimmed. -/
theorem trimmed_of_not_blank {text : List Char} (h : ∀ c ∈ text, isBlank c = false) : Trimmed text :=
  ⟨fun c hc => h c (List.mem_of_mem_head? hc), fun c hc => h c (List.mem_of_mem_getLast? hc)⟩

/-- Trimming the start of a text leaves a text that starts with no blank. -/
theorem trimStart_of_head {text : List Char} (h : ∀ c ∈ text.head?, isBlank c = false) :
    trimStart text = text := by
  cases text with
  | nil => rfl
  | cons c rest =>
    have hc : isBlank c = false := h c rfl
    rw [trimStart, List.dropWhile_cons_of_neg (by simp [hc])]

/-- A text that starts with a character which is not blank starts with no blank. -/
theorem not_blank_of_solid {text : List Char} (hsolid : text.head?.all isBlank = false) :
    ∀ c ∈ text.head?, isBlank c = false := by
  intro c hc
  rwa [Option.mem_def.mp hc, Option.all_some] at hsolid

/-- Blanks in front of a text that starts with none are all that trimming its start takes away. -/
theorem trimStart_append {lead text : List Char} (hlead : ∀ c ∈ lead, isBlank c = true)
    (htext : ∀ c ∈ text.head?, isBlank c = false) : trimStart (lead ++ text) = text := by
  rw [trimStart, List.dropWhile_append_of_pos hlead]
  exact trimStart_of_head htext

/-- No blank is left at the start of a text once it is trimmed. -/
theorem not_blank_of_mem_head?_trimStart {text : List Char} {c : Char} (h : c ∈ (trimStart text).head?) :
    isBlank c = false := by
  have hhead := List.head?_dropWhile_not isBlank text
  rw [show (text.dropWhile isBlank).head? = some c from h] at hhead
  exact hhead

/-- Trimming the start of a text takes away blanks only. -/
theorem exists_append_trimStart (text : List Char) :
    ∃ lead, (∀ c ∈ lead, isBlank c = true) ∧ text = lead ++ trimStart text :=
  ⟨text.takeWhile isBlank, fun _ hc => List.all_eq_true.mp List.all_takeWhile _ hc,
    List.takeWhile_append_dropWhile.symm⟩

/-- Blanks around a trimmed text are all that trimming takes away. -/
theorem trim_append {lead core trail : List Char} (hlead : ∀ c ∈ lead, isBlank c = true)
    (hcore : Trimmed core) (htrail : ∀ c ∈ trail, isBlank c = true) :
    trim (lead ++ core ++ trail) = core := by
  cases core with
  | nil =>
    -- All characters are blanks, so nothing is left after the first pass already.
    have hall : ∀ c ∈ lead ++ trail, isBlank c = true := by
      intro c hc
      exact (List.mem_append.mp hc).elim (hlead c) (htrail c)
    have hstart : trimStart (lead ++ trail) = [] := by
      rw [← List.append_nil (lead ++ trail)]
      exact trimStart_append hall (by simp)
    rw [List.append_nil, trim, hstart]
    rfl
  | cons c rest =>
    have hstart : trimStart (lead ++ (c :: rest) ++ trail) = (c :: rest) ++ trail := by
      rw [List.append_assoc]
      exact trimStart_append hlead hcore.head
    have hend : trimStart (trail.reverse ++ (c :: rest).reverse) = (c :: rest).reverse :=
      trimStart_append (by simpa using htrail) (by simpa only [List.head?_reverse] using hcore.last)
    rw [trim, hstart, List.reverse_append, hend, List.reverse_reverse]

/-- Trimming leaves a trimmed text alone. -/
theorem trim_of_trimmed {text : List Char} (h : Trimmed text) : trim text = text := by
  have hnone : ∀ c ∈ ([] : List Char), isBlank c = true := by simp
  simpa using trim_append hnone h hnone

/-- A blank in front of a text makes no difference to what trimming leaves. -/
theorem trim_cons_blank {blank : Char} (h : isBlank blank = true) (text : List Char) :
    trim (blank :: text) = trim text := by
  rw [trim, trim, show trimStart (blank :: text) = trimStart text from List.dropWhile_cons_of_pos h]

/-- Trimming gives the trimmed text from which the text differs by blanks at its ends. -/
theorem trim_eq_iff {text core : List Char} :
    trim text = core ↔ Trimmed core ∧ ∃ lead trail, (∀ c ∈ lead, isBlank c = true) ∧
      (∀ c ∈ trail, isBlank c = true) ∧ text = lead ++ core ++ trail := by
  constructor
  · rintro rfl
    obtain ⟨lead, hlead, htext⟩ := exists_append_trimStart text
    obtain ⟨trail, htrail, hstart⟩ := exists_append_trimStart (trimStart text).reverse
    have hcore : trimStart text = trim text ++ trail.reverse := by
      rw [trim, ← List.reverse_append, ← hstart, List.reverse_reverse]
    refine ⟨⟨fun c hc => ?_, fun c hc => ?_⟩, lead, trail.reverse, hlead, by simpa using htrail, ?_⟩
    · have hhead : c ∈ (trimStart text).head? := by
        rw [hcore, List.head?_append, Option.mem_def.mp hc]
        rfl
      exact not_blank_of_mem_head?_trimStart hhead
    · rw [trim, List.getLast?_reverse] at hc
      exact not_blank_of_mem_head?_trimStart hc
    · rw [List.append_assoc, ← hcore, ← htext]
  · rintro ⟨hcore, lead, trail, hlead, htrail, rfl⟩
    exact trim_append hlead hcore htrail

end Synopsis.Text
