import Synopsis.Proofs.Text.Runs
import Synopsis.Proofs.Text.Trim

/-!
# Collapsed texts are normal forms

A text is tidy when each of its blanks is a single space between two characters that are not blank.
Collapsing makes any text tidy and leaves a tidy one alone. It keeps the words of a text, and with them
all characters other than blanks, and it forgets everything else.
-/

namespace Synopsis.Text

/-- Whether each blank of a text is a single space between two characters that are not blank. -/
def Tidy (text : List Char) : Prop :=
  ∀ before c after, text = before ++ c :: after → isBlank c = true →
    c = ' ' ∧ (∃ left, before.getLast? = some left ∧ isBlank left = false) ∧
      ∃ right, after.head? = some right ∧ isBlank right = false

/-- Collapsing keeps the characters other than blanks, in order. -/
theorem filter_collapse (text : String) :
    (collapse text).toList.filter (!isBlank ·) = text.toList.filter (!isBlank ·) := by
  rw [← flatten_words, words_collapse, flatten_words]

section Spaces

/-- A longer first word lengthens the text. -/
theorem unwords_cons_word (c : Char) (word : List Char) (others : List (List Char)) :
    unwords ((c :: word) :: others) = c :: unwords (word :: others) := by
  cases others <;> rfl

/-- Words with spaces between them start like the first word. -/
theorem head?_unwords {word : List Char} (hne : word ≠ []) (others : List (List Char)) :
    (unwords (word :: others)).head? = word.head? := by
  obtain ⟨c, rest, rfl⟩ := List.exists_cons_of_ne_nil hne
  rw [unwords_cons_word]
  rfl

/-- A character that is not in the first of two texts stands behind it. -/
theorem exists_behind_of_notMem {c : Char} {first second before after : List Char} (hc : c ∉ first)
    (h : first ++ second = before ++ c :: after) :
    ∃ between, before = first ++ between ∧ second = between ++ c :: after := by
  rcases List.append_eq_append_iff.mp h with ⟨between, hbefore, hsecond⟩ | ⟨inside, hfirst, hbehind⟩
  · exact ⟨between, hbefore, hsecond⟩
  · cases inside with
    | nil => exact ⟨[], by simpa using hfirst.symm, hbehind.symm⟩
    | cons d inside =>
      obtain ⟨rfl, -⟩ := List.cons.inj hbehind
      exact absurd (by simp [hfirst]) hc

/-- A character that is not in the second of two texts stands in the first. -/
theorem exists_inside_of_notMem {c : Char} {first second before after : List Char} (hc : c ∉ second)
    (h : first ++ second = before ++ c :: after) :
    ∃ between, first = before ++ c :: between ∧ after = between ++ second := by
  rcases List.append_eq_append_iff.mp h with ⟨between, -, hsecond⟩ | ⟨inside, hfirst, hbehind⟩
  · exact absurd (by simp [hsecond]) hc
  · cases inside with
    | nil => exact absurd (by simp [← show c :: after = second from hbehind]) hc
    | cons d inside =>
      obtain ⟨rfl, hafter⟩ := List.cons.inj hbehind
      exact ⟨inside, hfirst, hafter⟩

/-- Words with spaces between them are tidy. -/
theorem tidy_unwords {pieces : List (List Char)}
    (h : ∀ piece ∈ pieces, piece ≠ [] ∧ ∀ c ∈ piece, isBlank c = false) : Tidy (unwords pieces) := by
  induction pieces with
  | nil =>
    intro before c after htext
    simp [unwords] at htext
  | cons word pieces ih =>
    obtain ⟨⟨hne, hword⟩, hpieces⟩ := List.forall_mem_cons.mp h
    intro before c after htext hc
    have hnotMem : c ∉ word := fun hmem => by simp [hword c hmem] at hc
    cases pieces with
    | nil =>
      rw [show unwords [word] = word from rfl] at htext
      exact absurd (by simp [htext]) hnotMem
    | cons second others =>
      rw [unwords_cons_cons] at htext
      obtain ⟨between, rfl, hbehind⟩ := exists_behind_of_notMem hnotMem htext
      -- The blank is the space behind the first word, or it belongs to the remaining text.
      cases between with
      | nil =>
        obtain ⟨rfl, rfl⟩ := List.cons.inj hbehind
        obtain ⟨hsecond, hsolid⟩ := hpieces second List.mem_cons_self
        refine ⟨rfl, ⟨word.getLast hne, ?_, hword _ (List.getLast_mem hne)⟩,
          ⟨second.head hsecond, ?_, hsolid _ (List.head_mem hsecond)⟩⟩
        · rw [List.append_nil, List.getLast?_eq_some_getLast hne]
        · rw [head?_unwords hsecond, List.head?_eq_some_head hsecond]
      | cons space between =>
        obtain ⟨rfl, hrest⟩ := List.cons.inj hbehind
        obtain ⟨hspace, ⟨left, hleft, hsolid⟩, hright⟩ := ih hpieces between c after hrest hc
        refine ⟨hspace, ⟨left, ?_, hsolid⟩, hright⟩
        rw [List.getLast?_append, List.getLast?_cons, hleft]
        rfl

/-- A collapsed text is tidy. -/
theorem tidy_collapse (text : String) : Tidy (collapse text).toList := by
  rw [collapse_eq_unwords, String.toList_ofList]
  exact tidy_unwords fun word hword => ⟨ne_nil_of_mem_words hword, not_blank_of_mem_words hword⟩

/-- Whether each blank of a text is a space in front of a character that is not blank. -/
def Spaced (text : List Char) : Prop :=
  ∀ before c after, text = before ++ c :: after → isBlank c = true →
    c = ' ' ∧ after.head?.all isBlank = false

/-- What stands behind the first character is spaced as well. -/
theorem Spaced.tail {c : Char} {rest : List Char} (h : Spaced (c :: rest)) : Spaced rest := by
  intro before d after hrest hd
  exact h (c :: before) d after (by rw [hrest, List.cons_append]) hd

/-- Collapsing a spaced text can only take a space away from its start. -/
theorem unwords_words_of_spaced {text : List Char} (h : Spaced text) :
    unwords (words text) = trimStart text := by
  induction text with
  | nil => rfl
  | cons c rest ih =>
    have hrest : unwords (words rest) = trimStart rest := ih h.tail
    cases hc : isBlank c with
    | true =>
      rw [words_cons_blank hc, hrest]
      exact (List.dropWhile_cons_of_pos hc).symm
    | false =>
      rw [trimStart_of_head (by simpa using hc)]
      cases hhead : rest.head?.all isBlank with
      | true =>
        rw [words_cons_gap hc hhead]
        cases rest with
        | nil => rfl
        | cons d after =>
          have hd : isBlank d = true := hhead
          obtain ⟨rfl, hsolid⟩ := h [c] d after rfl hd
          obtain ⟨word, others, hwords⟩ := exists_words_eq_cons hsolid
          have hstart : trimStart (' ' :: after) = after :=
            trimStart_append (List.forall_mem_singleton.mpr hd) (not_blank_of_solid hsolid)
          rw [words_cons_blank hd, hwords] at hrest ⊢
          rw [unwords_cons_cons, hrest, hstart]
          rfl
      | false =>
        obtain ⟨word, others, hwords⟩ := exists_words_eq_cons hhead
        rw [words_cons_joined hc hhead hwords, unwords_cons_word, ← hwords, hrest,
          trimStart_of_head (not_blank_of_solid hhead)]

/-- A tidy text is spaced and starts with no blank. -/
theorem Tidy.spaced {text : List Char} (h : Tidy text) :
    Spaced text ∧ ∀ c ∈ text.head?, isBlank c = false := by
  constructor
  · intro before c after htext hc
    obtain ⟨hspace, -, right, hright, hsolid⟩ := h before c after htext hc
    exact ⟨hspace, by rw [hright, Option.all_some, hsolid]⟩
  · intro c hhead
    obtain ⟨rest, rfl⟩ := List.head?_eq_some_iff.mp hhead
    cases hc : isBlank c with
    | false => rfl
    | true =>
      obtain ⟨-, ⟨left, hleft, -⟩, -⟩ := h [] c rest rfl hc
      simp at hleft

/-- Collapsing leaves exactly the tidy texts alone. -/
theorem collapse_eq_self_iff (text : String) : collapse text = text ↔ Tidy text.toList := by
  constructor
  · intro h
    rw [← h]
    exact tidy_collapse text
  · intro h
    obtain ⟨hspaced, hhead⟩ := h.spaced
    rw [collapse_eq_unwords, unwords_words_of_spaced hspaced, trimStart_of_head hhead, String.ofList_toList]

end Spaces

/-- Collapsing a text twice does no more than collapsing it once. -/
theorem collapse_collapse (text : String) : collapse (collapse text) = collapse text :=
  (collapse_eq_self_iff _).mpr (tidy_collapse text)

/-- Collapsing is a normal form for the words of a text. The words are the maximal runs without blanks,
in order. A collapsed text has the words of the text and the same characters other than blanks, its
blanks are single spaces inside it, it is not changed by collapsing it again, and it is shared exactly by
the texts with the same words. -/
theorem collapse_is_normal_form (text other : String) :
    ListsRuns text.toList (words text.toList) ∧
      words (collapse text).toList = words text.toList ∧
      (collapse text).toList.filter (!isBlank ·) = text.toList.filter (!isBlank ·) ∧
      Tidy (collapse text).toList ∧
      collapse (collapse text) = collapse text ∧
      (collapse text = collapse other ↔ words text.toList = words other.toList) :=
  ⟨listsRuns_words text.toList, words_collapse text, filter_collapse text, tidy_collapse text,
    collapse_collapse text, collapse_inj_iff text other⟩

end Synopsis.Text
