import Mathlib.Algebra.GroupWithZero.Nat
import Synopsis.Flags

/-!
# The bits of a flag word

The bits of a word are listed as powers of two from the lowest upwards, one for each position that is
set. Their union is the word, and there are as many as its population count. A word is determined by the
positions that are set in it, so most is proved about positions.
-/

namespace Synopsis.Flags

/-- The bits that are set in a word, in ascending order. -/
def bits (word : UInt32) : List UInt32 := ((List.range 32).map bitAt).filter (word &&& · ≠ 0)

/-- The positions of the bits that are set in a word, in ascending order. -/
def positions (word : UInt32) : List Nat := (List.range 32).filter (word.toNat.testBit ·)

/-- The word with all bits that are set in one of some words. -/
def union (words : List UInt32) : UInt32 := words.foldl (· ||| ·) 0

/-- Words with the same bits are equal. -/
theorem eq_of_testBit_eq {word other : UInt32}
    (h : ∀ shift < 32, word.toNat.testBit shift = other.toNat.testBit shift) : word = other := by
  refine UInt32.toNat_inj.mp (Nat.eq_of_testBit_eq fun shift => ?_)
  rcases Nat.lt_or_ge shift 32 with hlt | hge
  · exact h shift hlt
  · have hbeyond (word : UInt32) : word.toNat.testBit shift = false :=
      Nat.testBit_lt_two_pow (Nat.lt_of_lt_of_le word.toNat_lt (Nat.pow_le_pow_right (by decide) hge))
    rw [hbeyond, hbeyond]

section Positions

variable {shift : Nat} (h : shift < 32)
include h

/-- The word with one bit set is a power of two. -/
theorem toNat_bitAt : (bitAt shift).toNat = 2 ^ shift := by
  have hshift : shift.toUInt32.toNat % 32 = shift := by
    rw [UInt32.toNat_ofNat']
    omega
  rw [bitAt, UInt32.toNat_shiftLeft, hshift, UInt32.toNat_one, Nat.one_shiftLeft]
  exact Nat.mod_eq_of_lt (Nat.pow_lt_pow_right (by decide) h)

/-- One position is set in a word with one bit. -/
theorem testBit_bitAt (index : Nat) : (bitAt shift).toNat.testBit index = decide (shift = index) := by
  rw [toNat_bitAt h, Nat.testBit_two_pow]

/-- Different positions have different bits. -/
theorem bitAt_inj {index : Nat} (hindex : index < 32) (heq : bitAt shift = bitAt index) :
    shift = index := by
  have hset := testBit_bitAt h index
  rw [heq, testBit_bitAt hindex, decide_eq_true rfl] at hset
  exact of_decide_eq_true hset.symm

/-- A word has a bit exactly when it is set there. -/
theorem and_bitAt_ne_zero_iff (word : UInt32) :
    word &&& bitAt shift ≠ 0 ↔ word.toNat.testBit shift = true := by
  have hand (index : Nat) : (word &&& bitAt shift).toNat.testBit index =
      (word.toNat.testBit index && decide (shift = index)) := by
    rw [UInt32.toNat_and, Nat.testBit_and, testBit_bitAt h]
  constructor
  · intro hne
    cases hset : word.toNat.testBit shift with
    | true => rfl
    | false =>
      refine absurd (eq_of_testBit_eq fun index _ => ?_) hne
      rw [hand]
      by_cases hindex : shift = index
      · subst hindex
        simp [hset]
      · simp [hindex]
  · intro hset hzero
    have hshift := hand shift
    simp [hzero, hset] at hshift

end Positions

/-- A position is set in a union exactly when it is set in one of the words. -/
theorem testBit_union (words : List UInt32) (shift : Nat) :
    (union words).toNat.testBit shift = words.any (·.toNat.testBit shift) := by
  have hfrom (start : UInt32) : (words.foldl (· ||| ·) start).toNat.testBit shift =
      (start.toNat.testBit shift || words.any (·.toNat.testBit shift)) := by
    induction words generalizing start with
    | nil => simp
    | cons word words ih =>
      rw [List.foldl_cons, ih, UInt32.toNat_or, Nat.testBit_or, List.any_cons, Bool.or_assoc]
  rw [union, hfrom]
  simp

/-- The bits of a word stand at its positions. -/
theorem bits_eq_map_positions (word : UInt32) : bits word = (positions word).map bitAt := by
  rw [bits, List.filter_map, positions]
  refine congrArg (List.map bitAt) (List.filter_congr fun shift hshift => ?_)
  have hiff := and_bitAt_ne_zero_iff (List.mem_range.mp hshift) word
  exact Bool.eq_iff_iff.mpr (by simpa using hiff)

/-- The bits of a word are the powers of two that are set in it. -/
theorem mem_bits_iff {word bit : UInt32} :
    bit ∈ bits word ↔ ∃ shift < 32, bit.toNat = 2 ^ shift ∧ word.toNat.testBit shift = true := by
  simp only [bits_eq_map_positions, positions, List.mem_map, List.mem_filter, List.mem_range]
  constructor
  · rintro ⟨shift, ⟨hshift, hset⟩, rfl⟩
    exact ⟨shift, hshift, toNat_bitAt hshift, hset⟩
  · rintro ⟨shift, hshift, hbit, hset⟩
    exact ⟨shift, ⟨hshift, hset⟩, UInt32.toNat_inj.mp (by rw [toNat_bitAt hshift, hbit])⟩

/-- What holds of all bits of a word holds at each position that is set. -/
theorem forall_mem_bits_iff {word : UInt32} {p : UInt32 → Prop} :
    (∀ bit ∈ bits word, p bit) ↔ ∀ shift < 32, word.toNat.testBit shift = true → p (bitAt shift) := by
  simp only [bits_eq_map_positions, positions, List.forall_mem_map, List.mem_filter, List.mem_range,
    and_imp]

/-- The bits of a word ascend. -/
theorem pairwise_bits (word : UInt32) : (bits word).Pairwise (· < ·) := by
  rw [bits_eq_map_positions, List.pairwise_map]
  have hpositions : (positions word).Pairwise (· < ·) := List.pairwise_lt_range.filter _
  refine hpositions.imp_of_mem fun hleft hright hlt => ?_
  have hbound {shift : Nat} (hmem : shift ∈ positions word) : shift < 32 :=
    List.mem_range.mp (List.mem_filter.mp hmem).1
  rw [UInt32.lt_iff_toNat_lt, toNat_bitAt (hbound hleft), toNat_bitAt (hbound hright)]
  exact Nat.pow_lt_pow_right (by decide) hlt

/-- A word is the union of its bits. -/
theorem union_bits (word : UInt32) : union (bits word) = word := by
  refine eq_of_testBit_eq fun shift hshift => ?_
  rw [testBit_union, Bool.eq_iff_iff, List.any_eq_true]
  constructor
  · rintro ⟨bit, hmem, hbit⟩
    obtain ⟨index, hindex, hpower, hset⟩ := mem_bits_iff.mp hmem
    rw [hpower, Nat.testBit_two_pow, decide_eq_true_eq] at hbit
    rwa [← hbit]
  · intro hset
    exact ⟨bitAt shift, mem_bits_iff.mpr ⟨shift, hshift, toNat_bitAt hshift, hset⟩,
      by rw [testBit_bitAt hshift, decide_eq_true rfl]⟩

/-- A word has as many bits as its population count says. -/
theorem length_bits (word : UInt32) : (bits word).length = word.toBitVec.cpop.toNat := by
  have hcount (width : Nat) :
      ((List.range width).filter (word.toNat.testBit ·)).length = word.toBitVec.cpopNatRec width 0 := by
    induction width with
    | zero => rfl
    | succ width ih =>
      rw [List.range_succ, List.filter_append, List.length_append, ih, BitVec.cpopNatRec_succ,
        Nat.zero_add, BitVec.cpopNatRec_eq (Bool.toNat _), ← BitVec.testBit_toNat, UInt32.toNat_toBitVec]
      cases hset : word.toNat.testBit width <;> simp [hset]
  rw [bits_eq_map_positions, List.length_map, BitVec.toNat_cpop, positions, hcount]

/-- Only the word without bits has none. -/
theorem bits_eq_nil_iff (word : UInt32) : bits word = [] ↔ word = 0 := by
  constructor
  · intro h
    rw [← union_bits word, h]
    rfl
  · rintro rfl
    rfl

end Synopsis.Flags
