import Synopsis.Proofs.Flags.Bits

/-!
# Asking for the names of bits

Writing a flag word tries one shift after the other and asks a name function about the bits that are set.
The loop keeps the text written so far and whether a name stands in it; what it has written after any
number of shifts are the names of the bits among them, joined. The function may keep a state, so that the
same question may be answered differently each time; what is written is what it answers when it is asked
about the bits of the word in this order. Which questions are asked is seen by noting each of them, which
changes neither the answers nor the state.
-/

namespace Synopsis.Flags

/-- What a name function was asked about, and what it answered. -/
abbrev Exchange := UInt32 × String

variable {σ : Type}

/-- The name function that also notes what it is asked and what it answers. -/
def noting (nameOf : UInt32 → StateM σ String) (bit : UInt32) : StateM (List Exchange × σ) String :=
  fun (noted, state) =>
    let answer := (nameOf bit).run state
    (answer.1, noted ++ [(bit, answer.1)], answer.2)

/-- Whether a name function, asked one question after the other, gives the answers noted and goes from
one state to the other. -/
inductive Answers (nameOf : UInt32 → StateM σ String) : σ → List Exchange → σ → Prop
  | nil (state : σ) : Answers nameOf state [] state
  | cons {state between final : σ} {bit : UInt32} {name : String} {exchanges : List Exchange} :
      (nameOf bit).run state = (name, between) → Answers nameOf between exchanges final →
      Answers nameOf state ((bit, name) :: exchanges) final

/-- The progress that writing some names makes. -/
def Progress.after (names : List String) : Progress :=
  { out := ", ".intercalate names, first := names.isEmpty }

/-- Writing one more name goes on behind the others. -/
theorem Progress.add_after (names : List String) (name : String) :
    (Progress.after names).add name = Progress.after (names ++ [name]) := by
  cases names with
  | nil => simp [Progress.add, Progress.after]
  | cons first names =>
    have hjoined : ", ".intercalate (first :: names ++ [name]) =
        ", ".intercalate (first :: names) ++ ", " ++ name := by
      rw [String.intercalate_append_of_ne_nil (List.cons_ne_nil _ _) (List.cons_ne_nil _ _),
        String.intercalate_singleton]
    rw [Progress.after, Progress.after, hjoined]
    rfl

section Words

variable {m : Type → Type} [Monad m] [LawfulMonad m] (nameOf : UInt32 → m String)

/-- The loop over some shifts asks for the names of the bits that are set there and writes them behind the
names that are written already. -/
theorem foldlM_writeBit (word : UInt32) (shifts : List Nat) (names : List String) :
    shifts.foldlM (writeBit word nameOf) (Progress.after names) = do
      let more ← ((shifts.map bitAt).filter (word &&& · ≠ 0)).mapM nameOf
      return Progress.after (names ++ more) := by
  induction shifts generalizing names with
  | nil => simp
  | cons shift shifts ih =>
    rw [List.foldlM_cons, List.map_cons, writeBit]
    by_cases hunset : word &&& bitAt shift = 0
    · simp only [hunset, if_true, pure_bind, ne_eq, not_true_eq_false, decide_false,
        Bool.false_eq_true, not_false_eq_true, List.filter_cons_of_neg]
      exact ih names
    · rw [List.filter_cons_of_pos (by simpa using hunset), List.mapM_cons, if_neg hunset]
      simp only [bind_assoc, pure_bind, Progress.add_after, ih, List.append_assoc,
        List.singleton_append]

/-- What is written is the names of the bits with separators between them, or the mark if there are none. -/
theorem format_eq_mapM (word : UInt32) :
    format word nameOf = do
      let names ← (bits word).mapM nameOf
      return if names.isEmpty then noFlags else ", ".intercalate names := by
  have hloop := foldlM_writeBit nameOf word (List.range 32) []
  rw [format]
  change ((List.range 32).foldlM (writeBit word nameOf) (Progress.after []) >>= _) = _
  rw [hloop]
  simp only [bind_assoc, pure_bind, List.nil_append]
  rfl

/-- A word without bits is written without asking. -/
theorem format_zero : format 0 nameOf = pure noFlags := by
  rw [format_eq_mapM, (bits_eq_nil_iff 0).mpr rfl, List.mapM_nil, pure_bind]
  rfl

/-- Any other word is written as the names of its bits. -/
theorem format_of_ne_zero {word : UInt32} (h : word ≠ 0) :
    format word nameOf = do return ", ".intercalate (← (bits word).mapM nameOf) := by
  obtain ⟨bit, rest, hbits⟩ := List.exists_cons_of_ne_nil (mt (bits_eq_nil_iff word).mp h)
  rw [format_eq_mapM, hbits, List.mapM_cons]
  simp only [bind_assoc, pure_bind, List.isEmpty_cons, Bool.false_eq_true, if_false]

end Words

section Runs

/-- What is asked first decides the state in which the rest is asked. -/
theorem run_mapM_cons {α β τ : Type} {ask : α → StateM τ β} {question : α} {questions : List α}
    {state between final : τ} {answer : β} {answers : List β}
    (hfirst : (ask question).run state = (answer, between))
    (hrest : (questions.mapM ask).run between = (answers, final)) :
    ((question :: questions).mapM ask).run state = (answer :: answers, final) := by
  rw [List.mapM_cons, StateT.run_bind, hfirst]
  change (questions.mapM ask >>= fun answers => pure (answer :: answers)).run between = _
  rw [StateT.run_bind, hrest]
  rfl

variable (nameOf : UInt32 → StateM σ String)

/-- A question that is noted is answered as it would be otherwise. -/
theorem run_noting {bit : UInt32} {name : String} {state between : σ}
    (h : (nameOf bit).run state = (name, between)) (noted : List Exchange) :
    (noting nameOf bit).run (noted, state) = (name, noted ++ [(bit, name)], between) := by
  rw [StateT.run, noting, h]

/-- Asking about some bits notes one exchange for each of them and gives the answers noted. -/
theorem exists_answers_mapM (asked : List UInt32) (state : σ) :
    ∃ exchanges final, Answers nameOf state exchanges final ∧ exchanges.map Prod.fst = asked ∧
      (asked.mapM nameOf).run state = (exchanges.map Prod.snd, final) ∧
      ∀ noted, (asked.mapM (noting nameOf)).run (noted, state) =
        (exchanges.map Prod.snd, noted ++ exchanges, final) := by
  induction asked generalizing state with
  | nil => exact ⟨[], state, .nil state, rfl, rfl, fun noted => by rw [List.append_nil]; rfl⟩
  | cons bit asked ih =>
    obtain ⟨name, between, hname⟩ : ∃ name between, (nameOf bit).run state = (name, between) :=
      ⟨_, _, rfl⟩
    obtain ⟨exchanges, final, hanswers, hasked, hrun, hnoted⟩ := ih between
    refine ⟨(bit, name) :: exchanges, final, .cons hname hanswers, by rw [List.map_cons, hasked],
      run_mapM_cons hname hrun, fun noted => ?_⟩
    rw [run_mapM_cons (run_noting nameOf hname noted) (hnoted (noted ++ [(bit, name)])),
      List.append_assoc]
    rfl

/-- What is written is made of the answers that the name function gives about the bits of the word. -/
theorem exists_answers_format (word : UInt32) (state : σ) :
    ∃ exchanges final, Answers nameOf state exchanges final ∧ exchanges.map Prod.fst = bits word ∧
      ∃ text, (text = if word = 0 then noFlags else ", ".intercalate (exchanges.map Prod.snd)) ∧
        (format word nameOf).run state = (text, final) ∧
        (format word (noting nameOf)).run ([], state) = (text, exchanges, final) := by
  by_cases hzero : word = 0
  · subst hzero
    refine ⟨[], state, .nil state, ((bits_eq_nil_iff 0).mpr rfl).symm, noFlags, (if_pos rfl).symm,
      ?_, ?_⟩
    · rw [format_zero]
      rfl
    · rw [format_zero]
      rfl
  · obtain ⟨exchanges, final, hanswers, hasked, hrun, hnoted⟩ :=
      exists_answers_mapM nameOf (bits word) state
    refine ⟨exchanges, final, hanswers, hasked, _, (if_neg hzero).symm, ?_, ?_⟩
    · rw [format_of_ne_zero nameOf hzero, StateT.run_bind, hrun]
      rfl
    · rw [format_of_ne_zero (noting nameOf) hzero, StateT.run_bind, hnoted]
      rfl

end Runs

/-- Writing a word asks the name function about each bit of it once, as a power of two and in strictly
ascending order, whatever state the function keeps. The bits asked about make up the word, and there are
as many as its population count. What is written are the answers in the order of the questions with
commas between them, or the mark for a word without bits, about which nothing is asked. Noting the
questions changes nothing. -/
theorem format_asks_each_bit_once (nameOf : UInt32 → StateM σ String) (word : UInt32) (state : σ) :
    ∃ exchanges final text, Answers nameOf state exchanges final ∧
      (format word nameOf).run state = (text, final) ∧
      (format word (noting nameOf)).run ([], state) = (text, exchanges, final) ∧
      (∀ bit, bit ∈ exchanges.map Prod.fst ↔
        ∃ shift < 32, bit.toNat = 2 ^ shift ∧ word.toNat.testBit shift = true) ∧
      (exchanges.map Prod.fst).Pairwise (· < ·) ∧
      union (exchanges.map Prod.fst) = word ∧
      exchanges.length = word.toBitVec.cpop.toNat ∧
      (exchanges = [] ↔ word = 0) ∧
      text = if word = 0 then "???" else ", ".intercalate (exchanges.map Prod.snd) := by
  obtain ⟨exchanges, final, hanswers, hasked, text, htext, hrun, hnoted⟩ :=
    exists_answers_format nameOf word state
  refine ⟨exchanges, final, text, hanswers, hrun, hnoted, ?_, ?_, ?_, ?_, ?_, htext⟩
  · intro bit
    rw [hasked, mem_bits_iff]
  · rw [hasked]
    exact pairwise_bits word
  · rw [hasked, union_bits]
  · rw [← length_bits, ← hasked, List.length_map]
  · rw [← bits_eq_nil_iff, ← hasked, List.map_eq_nil_iff]

end Synopsis.Flags
