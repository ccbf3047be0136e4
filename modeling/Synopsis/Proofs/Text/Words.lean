import Synopsis.Text.Words

/-!
# Splitting a text and its words

A text that is split at a separator splits into the pieces before it and the pieces behind it. So its
pieces are what stands between separators. All that is used about words follows from this one equation:
blanks in a row separate no more than one of them, no word is empty or has a blank in it, and a collapsed
text has no blanks but spaces.
-/

namespace Synopsis.Text

section Splitting

variable {isSeparator : Char → Bool}

/-- There is always a first piece. -/
theorem splitWhere_ne_nil (isSeparator : Char → Bool) (text : List Char) :
    splitWhere isSeparator text ≠ [] := by
  cases text with
  | nil => simp [splitWhere]
  | cons c rest =>
    rw [splitWhere]
    split
    · simp
    · split <;> simp

/-- A text without separators is one piece. -/
theorem splitWhere_of_forall {text : List Char} (h : ∀ c ∈ text, isSeparator c = false) :
    splitWhere isSeparator text = [text] := by
  induction text with
  | nil => rfl
  | cons c rest ih =>
    obtain ⟨hc, hrest⟩ := List.forall_mem_cons.mp h
    rw [splitWhere, hc, ih hrest]
    rfl

/-- A separator splits a text into the pieces before it and the pieces behind it. -/
theorem splitWhere_append_cons {separator : Char} (h : isSeparator separator = true)
    (before after : List Char) :
    splitWhere isSeparator (before ++ separator :: after) =
      splitWhere isSeparator before ++ splitWhere isSeparator after := by
  induction before with
  | nil => simp [splitWhere, h]
  | cons c before ih =>
    rw [List.cons_append, splitWhere, splitWhere, ih]
    obtain ⟨piece, pieces, hpieces⟩ :=
      List.exists_cons_of_ne_nil (splitWhere_ne_nil isSeparator before)
    rw [hpieces]
    split <;> rfl

/-- There is one piece more than there are separators. -/
theorem length_splitWhere (text : List Char) :
    (splitWhere isSeparator text).length = text.countP isSeparator + 1 := by
  induction text with
  | nil => rfl
  | cons c rest ih =>
    rw [splitWhere, List.countP_cons]
    obtain ⟨piece, pieces, hpieces⟩ := List.exists_cons_of_ne_nil (splitWhere_ne_nil isSeparator rest)
    rw [hpieces] at ih ⊢
    cases isSeparator c <;> simpa using ih

/-- Whether a piece stands between two parts of a text without a separator in it and with a separator, or
an end of the text, on either side. -/
structure IsPiece (isSeparator : Char → Bool) (before piece after : List Char) : Prop where
  solid : ∀ c ∈ piece, isSeparator c = false
  opened : ∀ c ∈ before.getLast?, isSeparator c = true
  closed : ∀ c ∈ after.head?, isSeparator c = true

/-- What stands between separators is one of the pieces. -/
theorem IsPiece.mem_splitWhere {before piece after : List Char}
    (h : IsPiece isSeparator before piece after) :
    piece ∈ splitWhere isSeparator (before ++ piece ++ after) := by
  have hpiece : piece ∈ splitWhere isSeparator (piece ++ after) := by
    cases after with
    | nil =>
      rw [List.append_nil, splitWhere_of_forall h.solid]
      exact List.mem_singleton_self piece
    | cons separator after =>
      rw [splitWhere_append_cons (h.closed separator rfl), splitWhere_of_forall h.solid]
      exact List.mem_append_left _ (List.mem_singleton_self piece)
  rcases List.eq_nil_or_concat before with rfl | ⟨front, separator, rfl⟩
  · exact hpiece
  · have hseparator : isSeparator separator = true := h.opened separator (by simp)
    rw [List.append_assoc, List.concat_eq_append, List.append_assoc, List.singleton_append,
      splitWhere_append_cons hseparator]
    exact List.mem_append_right _ hpiece

/-- The first piece stands at the start of a text, and each other piece behind a separator. -/
theorem isPiece_of_splitWhere_eq {text first : List Char} {others : List (List Char)}
    (h : splitWhere isSeparator text = first :: others) :
    (∃ after, text = first ++ after ∧ IsPiece isSeparator [] first after) ∧
      ∀ piece ∈ others, ∃ before after, text = before ++ piece ++ after ∧ before ≠ [] ∧
        IsPiece isSeparator before piece after := by
  induction text generalizing first others with
  | nil =>
    obtain ⟨rfl, rfl⟩ := List.cons.inj h
    exact ⟨⟨[], rfl, by simp, by simp, by simp⟩, by simp⟩
  | cons c rest ih =>
    obtain ⟨head, tail, hrest⟩ := List.exists_cons_of_ne_nil (splitWhere_ne_nil isSeparator rest)
    obtain ⟨⟨after, hhead, hpiece⟩, hothers⟩ := ih hrest
    -- A character in front of a piece that stands behind a separator changes nothing about the piece.
    have hbehind : ∀ piece ∈ tail, ∃ before after, c :: rest = before ++ piece ++ after ∧ before ≠ [] ∧
        IsPiece isSeparator before piece after := by
      intro piece hmem
      obtain ⟨before, after, htext, hne, hsolid, hopened, hclosed⟩ := hothers piece hmem
      refine ⟨c :: before, after, by rw [htext]; rfl, List.cons_ne_nil c before, hsolid, ?_, hclosed⟩
      rwa [List.getLast?_cons_of_ne_nil hne]
    rw [splitWhere] at h
    cases hc : isSeparator c with
    | true =>
      rw [if_pos hc, hrest] at h
      obtain ⟨rfl, rfl⟩ := List.cons.inj h
      refine ⟨⟨c :: rest, rfl, by simp, by simp, by simpa using hc⟩, fun piece hmem => ?_⟩
      rcases List.mem_cons.mp hmem with rfl | hmem
      · exact ⟨[c], after, by rw [hhead]; rfl, List.cons_ne_nil c [], hpiece.solid, by simpa using hc,
          hpiece.closed⟩
      · exact hbehind piece hmem
    | false =>
      rw [if_neg (by simp [hc]), hrest] at h
      obtain ⟨rfl, rfl⟩ := List.cons.inj h
      refine ⟨⟨after, by rw [hhead]; rfl, ?_, by simp, hpiece.closed⟩, hbehind⟩
      exact List.forall_mem_cons.mpr ⟨hc, hpiece.solid⟩

/-- The pieces of a text are what stands in it between separators. -/
theorem mem_splitWhere_iff {text piece : List Char} :
    piece ∈ splitWhere isSeparator text ↔
      ∃ before after, text = before ++ piece ++ after ∧ IsPiece isSeparator before piece after := by
  constructor
  · intro hmem
    obtain ⟨first, others, hsplit⟩ := List.exists_cons_of_ne_nil (splitWhere_ne_nil isSeparator text)
    obtain ⟨⟨after, hfirst, hpiece⟩, hothers⟩ := isPiece_of_splitWhere_eq hsplit
    rw [hsplit] at hmem
    rcases List.mem_cons.mp hmem with rfl | hmem
    · exact ⟨[], after, hfirst, hpiece⟩
    · obtain ⟨before, after, htext, -, hother⟩ := hothers piece hmem
      exact ⟨before, after, htext, hother⟩
  · rintro ⟨before, after, rfl, hpiece⟩
    exact hpiece.mem_splitWhere

/-- No piece has a separator in it. -/
theorem not_separator_of_mem_splitWhere {text piece : List Char}
    (h : piece ∈ splitWhere isSeparator text) : ∀ c ∈ piece, isSeparator c = false := by
  obtain ⟨before, after, -, hpiece⟩ := mem_splitWhere_iff.mp h
  exact hpiece.solid

/-- The pieces between separators hold the characters other than separators, in order. -/
theorem flatten_splitWhere (isSeparator : Char → Bool) (text : List Char) :
    (splitWhere isSeparator text).flatten = text.filter (!isSeparator ·) := by
  induction text with
  | nil => rfl
  | cons c rest ih =>
    obtain ⟨piece, pieces, hpieces⟩ := List.exists_cons_of_ne_nil (splitWhere_ne_nil isSeparator rest)
    rw [hpieces, List.flatten_cons] at ih
    cases hc : isSeparator c <;> simp [splitWhere, hpieces, hc, ← ih]

/-- Leaving out empty pieces leaves out nothing. -/
theorem flatten_filter_ne_nil (pieces : List (List Char)) :
    (pieces.filter (· ≠ [])).flatten = pieces.flatten := by
  induction pieces with
  | nil => rfl
  | cons piece pieces ih =>
    cases piece with
    | nil => simpa using ih
    | cons c piece => simpa using ih

end Splitting

/-- A space is a blank. -/
theorem isBlank_space : isBlank ' ' = true := by decide

/-- The words before a blank are followed by the words behind it. -/
theorem words_append_blank {blank : Char} (h : isBlank blank = true) (before after : List Char) :
    words (before ++ blank :: after) = words before ++ words after := by
  rw [words, splitWhere_append_cons h, List.filter_append]
  rfl

/-- A blank at the start of a text belongs to no word. -/
theorem words_cons_blank {blank : Char} (h : isBlank blank = true) (text : List Char) :
    words (blank :: text) = words text :=
  words_append_blank h [] text

/-- No word has a blank in it. -/
theorem not_blank_of_mem_words {text word : List Char} (h : word ∈ words text) :
    ∀ c ∈ word, isBlank c = false :=
  not_separator_of_mem_splitWhere (List.mem_filter.mp h).1

/-- No word is empty. -/
theorem ne_nil_of_mem_words {text word : List Char} (h : word ∈ words text) : word ≠ [] := by
  simpa using (List.mem_filter.mp h).2

/-- A text without blanks is its only word, unless it is empty. -/
theorem words_of_not_blank {word : List Char} (hne : word ≠ []) (h : ∀ c ∈ word, isBlank c = false) :
    words word = [word] := by
  rw [words, splitWhere_of_forall h]
  exact List.filter_eq_self.mpr (by simpa using hne)

/-- A text that starts with a character that is not blank has a first word. -/
theorem exists_words_eq_cons {text : List Char} (hsolid : text.head?.all isBlank = false) :
    ∃ word others, words text = word :: others := by
  cases text with
  | nil => contradiction
  | cons d rest =>
    have hd : isBlank d = false := hsolid
    obtain ⟨piece, pieces, hpieces⟩ := List.exists_cons_of_ne_nil (splitWhere_ne_nil isBlank rest)
    exact ⟨d :: piece, pieces.filter (· ≠ []), by simp [words, splitWhere, hd, hpieces]⟩

section Prepending

variable {c : Char} (hc : isBlank c = false) {text : List Char}
include hc

/-- A character that is not blank is a word of its own in front of a gap. -/
theorem words_cons_gap (hgap : text.head?.all isBlank = true) :
    words (c :: text) = [c] :: words text := by
  have hword : words [c] = [[c]] := words_of_not_blank (List.cons_ne_nil c []) (by simpa using hc)
  cases text with
  | nil => exact hword
  | cons d rest =>
    have hd : isBlank d = true := hgap
    rw [words_cons_blank hd, show c :: d :: rest = [c] ++ d :: rest from rfl, words_append_blank hd,
      hword]
    rfl

/-- In front of a word, a character that is not blank belongs to it. -/
theorem words_cons_joined {word : List Char} {others : List (List Char)}
    (hsolid : text.head?.all isBlank = false) (hwords : words text = word :: others) :
    words (c :: text) = (c :: word) :: others := by
  cases text with
  | nil => contradiction
  | cons d rest =>
    have hd : isBlank d = false := hsolid
    obtain ⟨piece, pieces, hpieces⟩ := List.exists_cons_of_ne_nil (splitWhere_ne_nil isBlank rest)
    simp_all [words, splitWhere]

/-- A first character that is not blank starts a word of its own exactly when no word goes on behind
it. -/
theorem length_words_cons (text : List Char) :
    (words (c :: text)).length = (words text).length + if text.head?.all isBlank then 1 else 0 := by
  cases hhead : text.head?.all isBlank with
  | true =>
    rw [words_cons_gap hc hhead]
    rfl
  | false =>
    obtain ⟨word, others, hwords⟩ := exists_words_eq_cons hhead
    rw [words_cons_joined hc hhead hwords, hwords]
    rfl

end Prepending

/-- The words of a text hold its characters other than blanks, in order. -/
theorem flatten_words (text : List Char) : (words text).flatten = text.filter (!isBlank ·) := by
  rw [words, flatten_filter_ne_nil, flatten_splitWhere]

/-- Words written one after the other with a single space between neighbours. -/
def unwords : List (List Char) → List Char
  | [] => []
  | [word] => word
  | word :: rest => word ++ ' ' :: unwords rest

/-- A first word in front of others is followed by a space. -/
theorem unwords_cons_cons (word second : List Char) (others : List (List Char)) :
    unwords (word :: second :: others) = word ++ ' ' :: unwords (second :: others) := rfl

/-- Words that are added to a text that is not empty stand behind it with single spaces between them. -/
theorem foldl_addWord {out : List Char} (hout : out ≠ []) (pieces : List (List Char)) :
    pieces.foldl addWord out = unwords (out :: pieces) := by
  induction pieces generalizing out with
  | nil => rfl
  | cons piece pieces ih =>
    have hadded : addWord out piece = out ++ ' ' :: piece := by
      rw [addWord, List.isEmpty_eq_false_iff.mpr hout]
      simp
    rw [List.foldl_cons, hadded, ih (by simp), unwords_cons_cons]
    cases pieces with
    | nil => rfl
    | cons second others =>
      rw [unwords_cons_cons, unwords_cons_cons, List.append_assoc]
      rfl

/-- The loop over the words of a text, which looks at whether anything is written yet, writes them with single
spaces between them, since no word is empty. -/
theorem collapse_eq_unwords (text : String) :
    collapse text = String.ofList (unwords (words text.toList)) := by
  have hnonempty : ∀ word ∈ words text.toList, word ≠ [] := fun _ hword => ne_nil_of_mem_words hword
  rw [collapse]
  cases hwords : words text.toList with
  | nil => rfl
  | cons first others =>
    rw [hwords] at hnonempty
    rw [List.foldl_cons]
    exact congrArg String.ofList (foldl_addWord (hnonempty first List.mem_cons_self) others)

/-- Words that are written with spaces between them are read back. -/
theorem words_unwords {pieces : List (List Char)}
    (h : ∀ piece ∈ pieces, piece ≠ [] ∧ ∀ c ∈ piece, isBlank c = false) :
    words (unwords pieces) = pieces := by
  induction pieces with
  | nil => rfl
  | cons piece pieces ih =>
    obtain ⟨⟨hne, hpiece⟩, hpieces⟩ := List.forall_mem_cons.mp h
    cases pieces with
    | nil => exact words_of_not_blank hne hpiece
    | cons second others =>
      rw [unwords_cons_cons, words_append_blank isBlank_space, words_of_not_blank hne hpiece, ih hpieces]
      rfl

/-- Collapsing keeps the words of a text. -/
theorem words_collapse (text : String) : words (collapse text).toList = words text.toList := by
  rw [collapse_eq_unwords, String.toList_ofList]
  exact words_unwords fun _ hword => ⟨ne_nil_of_mem_words hword, not_blank_of_mem_words hword⟩

/-- Two texts collapse to the same text exactly when they have the same words. -/
theorem collapse_inj_iff (text other : String) :
    collapse text = collapse other ↔ words text.toList = words other.toList := by
  constructor
  · intro h
    rw [← words_collapse text, h, words_collapse]
  · intro h
    rw [collapse, collapse, h]

/-- What stands in words with spaces between them is a space or stands in one of the words. -/
theorem mem_unwords {c : Char} {pieces : List (List Char)} (h : c ∈ unwords pieces) :
    c = ' ' ∨ ∃ piece ∈ pieces, c ∈ piece := by
  induction pieces with
  | nil => simp [unwords] at h
  | cons piece pieces ih =>
    cases pieces with
    | nil => exact Or.inr ⟨piece, List.mem_cons_self, h⟩
    | cons second others =>
      rw [unwords_cons_cons] at h
      rcases List.mem_append.mp h with hmem | hmem
      · exact Or.inr ⟨piece, List.mem_cons_self, hmem⟩
      · rcases List.mem_cons.mp hmem with rfl | hmem
        · exact Or.inl rfl
        · obtain rfl | ⟨word, hword, hc⟩ := ih hmem
          · exact Or.inl rfl
          · exact Or.inr ⟨word, List.mem_cons_of_mem _ hword, hc⟩

/-- The only blanks of a collapsed text are spaces. -/
theorem blank_of_mem_collapse {text : String} {c : Char} (h : c ∈ (collapse text).toList)
    (hblank : isBlank c = true) : c = ' ' := by
  rw [collapse_eq_unwords, String.toList_ofList] at h
  rcases mem_unwords h with rfl | ⟨word, hword, hc⟩
  · rfl
  · rw [not_blank_of_mem_words hword c hc] at hblank
    contradiction

end Synopsis.Text
