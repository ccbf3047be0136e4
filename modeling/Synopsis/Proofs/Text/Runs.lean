import Synopsis.Proofs.Text.Words

/-!
# Words as maximal runs

A maximal run of a text is a stretch without blanks that has a blank or an end of the text on either
side. The words of a text are its maximal runs, each of them once and in the order of the text. A
character in front of a text moves every run by one place; what it does to the first run is the only
question.
-/

namespace Synopsis.Text

/-- Whether no word of a text covers a position: it holds a blank or lies behind the end. -/
def outside (text : List Char) (index : Nat) : Bool := (text[index]?).all isBlank

/-- Whether the stretch of a text from `start` to `stop` is a maximal one without blanks. -/
structure IsRun (text : List Char) (start stop : Nat) : Prop where
  nonempty : start < stop
  solid : ∀ index, start ≤ index → index < stop → outside text index = false
  opened : start = 0 ∨ outside text (start - 1) = true
  closed : outside text stop = true

/-- Whether places are those of the maximal runs of a text, in order. -/
structure LocatesRuns (text : List Char) (places : List (Nat × Nat)) : Prop where
  ascending : places.Pairwise fun place next => place.2 < next.1
  complete : ∀ start stop, (start, stop) ∈ places ↔ IsRun text start stop

/-- Whether a list holds the maximal runs of a text, each of them once and in order. -/
def ListsRuns (text : List Char) (list : List (List Char)) : Prop :=
  ∃ places, LocatesRuns text places ∧ list = places.map fun place => (text.take place.2).drop place.1

section Positions

variable (c : Char) (rest : List Char)

@[simp] theorem outside_nil (index : Nat) : outside [] index = true := rfl

@[simp] theorem outside_cons_zero : outside (c :: rest) 0 = isBlank c := by simp [outside]

@[simp] theorem outside_cons_succ (index : Nat) :
    outside (c :: rest) (index + 1) = outside rest index := rfl

/-- The first position lies in a word exactly when the text starts with a character that is not blank. -/
theorem outside_zero (text : List Char) : outside text 0 = text.head?.all isBlank := by
  cases text <;> rfl

end Positions

section Runs

variable {c : Char} {rest : List Char} {start stop : Nat}

/-- Runs behind the first character are runs of the remaining text, unless the first character would
belong to them. -/
theorem isRun_cons_succ :
    IsRun (c :: rest) (start + 1) (stop + 1) ↔
      IsRun rest start stop ∧ (start = 0 → isBlank c = true) := by
  constructor
  · intro h
    have hopened : outside (c :: rest) start = true := by simpa using h.opened
    refine ⟨⟨by simpa using h.nonempty, fun index hstart hstop => ?_, ?_, h.closed⟩, ?_⟩
    · exact h.solid (index + 1) (by omega) (by omega)
    · cases start with
      | zero => exact Or.inl rfl
      | succ start => exact Or.inr hopened
    · rintro rfl
      exact hopened
  · rintro ⟨h, hfirst⟩
    refine ⟨by simpa using h.nonempty, fun index hstart hstop => ?_, Or.inr ?_, h.closed⟩
    · cases index with
      | zero => omega
      | succ index => exact h.solid index (by omega) (by omega)
    · cases start with
      | zero => exact hfirst rfl
      | succ start => simpa using h.opened

/-- A run that starts with the first character goes on through the first run of the remaining text, or
ends at once if a gap follows. -/
theorem isRun_cons_zero (hc : isBlank c = false) :
    IsRun (c :: rest) 0 (stop + 1) ↔ stop = 0 ∧ outside rest 0 = true ∨ IsRun rest 0 stop := by
  constructor
  · intro h
    rcases Nat.eq_zero_or_pos stop with rfl | hstop
    · exact Or.inl ⟨rfl, h.closed⟩
    · refine Or.inr ⟨hstop, fun index _ hindex => ?_, Or.inl rfl, h.closed⟩
      exact h.solid (index + 1) (by omega) (by omega)
  · intro h
    have hclosed : outside rest stop = true := by
      rcases h with ⟨rfl, hgap⟩ | h
      · exact hgap
      · exact h.closed
    refine ⟨by omega, fun index _ hindex => ?_, Or.inl rfl, hclosed⟩
    cases index with
    | zero => exact hc
    | succ index =>
      rcases h with ⟨rfl, -⟩ | h
      · omega
      · exact h.solid index (by omega) (by omega)

/-- No run starts outside of the words. -/
theorem IsRun.start_ne {text : List Char} (h : IsRun text start stop) (hgap : outside text 0 = true) :
    start ≠ 0 := by
  rintro rfl
  have hsolid := h.solid 0 (by omega) h.nonempty
  rw [hgap] at hsolid
  contradiction

/-- A text that starts with a character that is not blank starts with a run. -/
theorem exists_isRun_zero (text : List Char) (h : outside text 0 = false) :
    ∃ stop, IsRun text 0 stop := by
  induction text with
  | nil => contradiction
  | cons c rest ih =>
    have hc : isBlank c = false := h
    cases hrest : outside rest 0 with
    | true => exact ⟨1, (isRun_cons_zero hc).mpr (Or.inl ⟨rfl, hrest⟩)⟩
    | false =>
      obtain ⟨stop, hrun⟩ := ih hrest
      exact ⟨stop + 1, (isRun_cons_zero hc).mpr (Or.inr hrun)⟩

end Runs

/-- Places one position further on. -/
def shifted (places : List (Nat × Nat)) : List (Nat × Nat) :=
  places.map fun place => (place.1 + 1, place.2 + 1)

/-- Shifted places are in order if the places are. -/
theorem pairwise_shifted {places : List (Nat × Nat)}
    (h : places.Pairwise fun place next => place.2 < next.1) :
    (shifted places).Pairwise fun place next => place.2 < next.1 := by
  rw [shifted, List.pairwise_map]
  exact h.imp fun hlt => by omega

/-- A shifted place is behind the first position. -/
theorem mem_shifted_iff {places : List (Nat × Nat)} {start stop : Nat} :
    (start, stop) ∈ shifted places ↔
      ∃ first last, (first, last) ∈ places ∧ start = first + 1 ∧ stop = last + 1 := by
  simp only [shifted, List.mem_map, Prod.exists, Prod.mk.injEq]
  constructor
  · rintro ⟨first, last, hmem, rfl, rfl⟩
    exact ⟨first, last, hmem, rfl, rfl⟩
  · rintro ⟨first, last, hmem, rfl, rfl⟩
    exact ⟨first, last, hmem, rfl, rfl⟩

/-- The stretches at shifted places are those of the text without its first character. -/
theorem map_shifted (c : Char) (rest : List Char) (places : List (Nat × Nat)) :
    ((shifted places).map fun place => ((c :: rest).take place.2).drop place.1) =
      places.map fun place => (rest.take place.2).drop place.1 := by
  rw [shifted, List.map_map]
  rfl

section Prepending

variable {c : Char} {rest : List Char} {places : List (Nat × Nat)}

/-- A blank in front of a text moves its runs. -/
theorem LocatesRuns.cons_blank (h : LocatesRuns rest places) (hc : isBlank c = true) :
    LocatesRuns (c :: rest) (shifted places) := by
  refine ⟨pairwise_shifted h.ascending, fun start stop => ?_⟩
  rw [mem_shifted_iff]
  constructor
  · rintro ⟨first, last, hmem, rfl, rfl⟩
    exact isRun_cons_succ.mpr ⟨(h.complete first last).mp hmem, fun _ => hc⟩
  · intro hrun
    obtain ⟨first, rfl⟩ := Nat.exists_eq_succ_of_ne_zero (hrun.start_ne hc)
    obtain ⟨last, rfl⟩ := Nat.exists_eq_succ_of_ne_zero (Nat.ne_zero_of_lt hrun.nonempty)
    exact ⟨first, last, (h.complete first last).mpr (isRun_cons_succ.mp hrun).1, rfl, rfl⟩

/-- A character in front of a gap is a run of its own. -/
theorem LocatesRuns.cons_gap (h : LocatesRuns rest places) (hc : isBlank c = false)
    (hgap : outside rest 0 = true) : LocatesRuns (c :: rest) ((0, 1) :: shifted places) := by
  refine ⟨List.pairwise_cons.mpr ⟨fun place hplace => ?_, pairwise_shifted h.ascending⟩,
    fun start stop => ?_⟩
  · obtain ⟨first, last, hmem, hstart, -⟩ := mem_shifted_iff.mp hplace
    have hfirst := ((h.complete first last).mp hmem).start_ne hgap
    omega
  · rw [List.mem_cons, Prod.mk.injEq, mem_shifted_iff]
    constructor
    · rintro (⟨rfl, rfl⟩ | ⟨first, last, hmem, rfl, rfl⟩)
      · exact (isRun_cons_zero hc).mpr (Or.inl ⟨rfl, hgap⟩)
      · have hrun := (h.complete first last).mp hmem
        exact isRun_cons_succ.mpr ⟨hrun, fun hzero => absurd hzero (hrun.start_ne hgap)⟩
    · intro hrun
      obtain ⟨last, rfl⟩ := Nat.exists_eq_succ_of_ne_zero (Nat.ne_zero_of_lt hrun.nonempty)
      cases start with
      | zero =>
        rcases (isRun_cons_zero hc).mp hrun with ⟨rfl, -⟩ | hrest
        · exact Or.inl ⟨rfl, rfl⟩
        · exact absurd rfl (hrest.start_ne hgap)
      | succ first =>
        exact Or.inr ⟨first, last, (h.complete first last).mpr (isRun_cons_succ.mp hrun).1, rfl, rfl⟩

/-- A character in front of a run lengthens it. -/
theorem LocatesRuns.cons_joined {stop : Nat} (h : LocatesRuns rest ((0, stop) :: places))
    (hc : isBlank c = false) : LocatesRuns (c :: rest) ((0, stop + 1) :: shifted places) := by
  obtain ⟨hfirst, hplaces⟩ := List.pairwise_cons.mp h.ascending
  have hopen : IsRun rest 0 stop := (h.complete 0 stop).mp List.mem_cons_self
  have hsolid : outside rest 0 = false := hopen.solid 0 (by omega) hopen.nonempty
  refine ⟨List.pairwise_cons.mpr ⟨fun place hplace => ?_, pairwise_shifted hplaces⟩,
    fun start last => ?_⟩
  · obtain ⟨next, last, hmem, hstart, -⟩ := mem_shifted_iff.mp hplace
    have hlt := hfirst (next, last) hmem
    simp only at hlt
    omega
  · rw [List.mem_cons, Prod.mk.injEq, mem_shifted_iff]
    constructor
    · rintro (⟨rfl, rfl⟩ | ⟨next, last, hmem, rfl, rfl⟩)
      · exact (isRun_cons_zero hc).mpr (Or.inr hopen)
      · have hlt : stop < next := hfirst (next, last) hmem
        have hrun := (h.complete next last).mp (List.mem_cons_of_mem _ hmem)
        exact isRun_cons_succ.mpr ⟨hrun, fun hzero => by omega⟩
    · intro hrun
      obtain ⟨last, rfl⟩ := Nat.exists_eq_succ_of_ne_zero (Nat.ne_zero_of_lt hrun.nonempty)
      -- Of the runs that stand at the start, the places name one, so any other is that one.
      have hplace {next last : Nat} (hnext : IsRun rest next last) :
          next = 0 ∧ last = stop ∨ (next, last) ∈ places := by
        simpa using (h.complete next last).mpr hnext
      cases start with
      | zero =>
        rcases (isRun_cons_zero hc).mp hrun with ⟨-, hgap⟩ | hrest
        · rw [hsolid] at hgap
          contradiction
        · rcases hplace hrest with ⟨-, rfl⟩ | hmem
          · exact Or.inl ⟨rfl, rfl⟩
          · exact absurd (hfirst _ hmem) (Nat.not_lt_zero stop)
      | succ next =>
        obtain ⟨hrest, hblank⟩ := isRun_cons_succ.mp hrun
        rcases hplace hrest with ⟨hzero, -⟩ | hmem
        · rw [hc] at hblank
          exact absurd (hblank hzero) Bool.false_ne_true
        · exact Or.inr ⟨next, last, hmem, rfl, rfl⟩

/-- In a text that starts with a run, the first place is that of the run. -/
theorem LocatesRuns.exists_cons (h : LocatesRuns rest places) (hsolid : outside rest 0 = false) :
    ∃ stop others, places = (0, stop) :: others := by
  obtain ⟨stop, hrun⟩ := exists_isRun_zero rest hsolid
  have hmem := (h.complete 0 stop).mpr hrun
  cases places with
  | nil => simp at hmem
  | cons place others =>
    rcases List.mem_cons.mp hmem with rfl | hothers
    · exact ⟨stop, others, rfl⟩
    · exact absurd ((List.pairwise_cons.mp h.ascending).1 _ hothers) (Nat.not_lt_zero _)

end Prepending

/-- An empty text has no runs. -/
theorem locatesRuns_nil : LocatesRuns [] [] := by
  refine ⟨List.Pairwise.nil, fun start stop => ⟨fun hmem => ?_, fun hrun => ?_⟩⟩
  · exact absurd hmem List.not_mem_nil
  have hsolid := hrun.solid start (Nat.le_refl _) hrun.nonempty
  contradiction

/-- The words of a text are its maximal runs, in order. -/
theorem listsRuns_words (text : List Char) : ListsRuns text (words text) := by
  induction text with
  | nil => exact ⟨[], locatesRuns_nil, rfl⟩
  | cons c rest ih =>
    obtain ⟨places, hplaces, hwords⟩ := ih
    cases hc : isBlank c with
    | true =>
      refine ⟨shifted places, hplaces.cons_blank hc, ?_⟩
      rw [words_cons_blank hc, map_shifted, hwords]
    | false =>
      cases hrest : outside rest 0 with
      | true =>
        refine ⟨(0, 1) :: shifted places, hplaces.cons_gap hc hrest, ?_⟩
        rw [words_cons_gap hc (by rwa [← outside_zero]), List.map_cons, map_shifted, hwords]
        rfl
      | false =>
        obtain ⟨stop, others, rfl⟩ := hplaces.exists_cons hrest
        refine ⟨(0, stop + 1) :: shifted others, hplaces.cons_joined hc, ?_⟩
        rw [words_cons_joined hc (by rwa [← outside_zero]) hwords, List.map_cons, map_shifted]
        rfl

end Synopsis.Text
