import Mathlib.Algebra.GroupWithZero.Nat
import Mathlib.Data.List.Range

/-!
# Numbering in pre-order

Nodes that are numbered in pre-order take consecutive numbers for everything at and below them. So the
children of a node begin at the numbers that their sizes add up to, behind the node itself.
-/

namespace Synopsis

/-- The numbers at which blocks of the given sizes begin if they follow one another from `first` on. -/
def blockStarts (first : Nat) (sizes : List Nat) : List Nat :=
  (List.range sizes.length).map fun index => first + (sizes.take index).sum

/-- There are no blocks without sizes. -/
@[simp] theorem blockStarts_nil (first : Nat) : blockStarts first [] = [] := rfl

/-- Behind the first block the others begin at its end. -/
@[simp] theorem blockStarts_cons (first size : Nat) (sizes : List Nat) :
    blockStarts first (size :: sizes) = first :: blockStarts (first + size) sizes := by
  simp only [blockStarts, List.length_cons, List.range_succ_eq_map, List.map_cons, List.map_map,
    List.take_zero, List.sum_nil, Nat.add_zero, Function.comp_def, List.take_succ_cons, List.sum_cons,
    Nat.add_assoc]

end Synopsis
