import Synopsis.Proofs.Span.Layers

/-!
# Modifications by number

An assignment of modifications gives one to every number. A tree takes those in its own interval, and
the layers around it take all others. So two assignments that agree outside of a subtree give the
same layers around it.
-/

namespace Synopsis

namespace SpanTree

section Marking

variable (marks : Nat → Modification)

mutual

/-- A tree with the modifications that numbers are given, its root having number `id`. -/
def markFrom (id : Nat) : SpanTree → SpanTree
  | .span node _ children => .span node (marks id) (markFromAll (id + 1) children)

/-- Consecutive trees with the modifications that numbers are given. -/
def markFromAll (next : Nat) : List SpanTree → List SpanTree
  | [] => []
  | tree :: rest => markFrom next tree :: markFromAll (next + tree.size) rest

end

mutual

/-- A rule that looks at numbers only gives every number its modification. -/
theorem snd_visitFrom_eq_markFrom (tree : SpanTree) (id : Nat) (parent : Option Nat) :
    (visitFrom (fun _ span => ((), marks span.id)) id parent () tree).2 = tree.markFrom marks id := by
  cases tree with
  | span node modification children =>
    rw [visitFrom, markFrom, snd_visitFromAll_eq_markFromAll children (id + 1) id]

/-- A rule that looks at numbers only gives every number of consecutive trees its modification. -/
theorem snd_visitFromAll_eq_markFromAll (trees : List SpanTree) (next parent : Nat) :
    (visitFromAll (fun _ span => ((), marks span.id)) next parent () trees).2 =
      markFromAll marks next trees := by
  cases trees with
  | nil => rfl
  | cons tree trees =>
    rw [visitFromAll, markFromAll, snd_visitFrom_eq_markFrom tree next (some parent),
      snd_visitFromAll_eq_markFromAll trees (next + tree.size) parent]

end

/-- Modifying a tree by numbers. -/
theorem modify_eq_markFrom (tree : SpanTree) :
    tree.modify (fun span => marks span.id) = tree.markFrom marks 0 :=
  snd_visitFrom_eq_markFrom marks tree 0 none

/-- Modifications do not change ranges. -/
theorem range_markFrom (tree : SpanTree) (id : Nat) : (tree.markFrom marks id).range = tree.range := by
  cases tree with
  | span node modification children =>
    rw [markFrom]
    rfl

/-- Consecutive trees are given modifications one after another. -/
theorem markFromAll_append (left right : List SpanTree) (next : Nat) :
    markFromAll marks next (left ++ right) =
      markFromAll marks next left ++ markFromAll marks (next + sizeAll left) right := by
  induction left generalizing next with
  | nil => rw [List.nil_append, sizeAll, markFromAll, List.nil_append, Nat.add_zero]
  | cons tree left ih =>
    rw [List.cons_append, markFromAll, markFromAll, sizeAll, ih, List.cons_append, Nat.add_assoc]

mutual

/-- A tree that is numbered from elsewhere takes the modifications from there. -/
theorem markFrom_add (base : Nat) (tree : SpanTree) (id : Nat) :
    tree.markFrom marks (base + id) = tree.markFrom (fun number => marks (base + number)) id := by
  cases tree with
  | span node modification children =>
    rw [markFrom, markFrom, Nat.add_assoc, markFromAll_add base children (id + 1)]

/-- Consecutive trees that are numbered from elsewhere take the modifications from there. -/
theorem markFromAll_add (base : Nat) (trees : List SpanTree) (next : Nat) :
    markFromAll marks (base + next) trees =
      markFromAll (fun number => marks (base + number)) next trees := by
  cases trees with
  | nil => rfl
  | cons tree trees =>
    rw [markFromAll, markFromAll, Nat.add_assoc, markFrom_add base tree next,
      markFromAll_add base trees (next + tree.size)]

end

variable {marks} {other : Nat → Modification}

mutual

/-- Only the modifications in the interval of a tree matter to it. -/
theorem markFrom_congr (tree : SpanTree) (id : Nat)
    (h : ∀ number, id ≤ number → number < id + tree.size → marks number = other number) :
    tree.markFrom marks id = tree.markFrom other id := by
  cases tree with
  | span node modification children =>
    rw [size] at h
    rw [markFrom, markFrom, h id (Nat.le_refl id) (by omega),
      markFromAll_congr children (id + 1) fun number hle hlt => h number (by omega) (by omega)]

/-- Only the modifications in the interval of consecutive trees matter to them. -/
theorem markFromAll_congr (trees : List SpanTree) (next : Nat)
    (h : ∀ number, next ≤ number → number < next + sizeAll trees → marks number = other number) :
    markFromAll marks next trees = markFromAll other next trees := by
  cases trees with
  | nil => rfl
  | cons tree trees =>
    rw [sizeAll] at h
    rw [markFromAll, markFromAll,
      markFrom_congr tree next fun number hle hlt => h number hle (by omega),
      markFromAll_congr trees _ fun number hle hlt => h number (by omega) (by omega)]

end

end Marking

end SpanTree

namespace Layer

open SpanTree

/-- Layers around a tree of some size with the modifications that numbers are given. -/
def markAll (marks : Nat → Modification) (size : Nat) : List Layer → List Layer
  | [] => []
  | layer :: outer =>
    { layer with
      modification := marks (number outer)
      left := markFromAll marks (number outer + 1) layer.left
      right := markFromAll marks (number outer + 1 + sizeAll layer.left + size) layer.right } ::
      markAll marks (sizeAll layer.left + size + sizeAll layer.right + 1) outer

/-- Marked layers are unmodified exactly when their numbers are given no modification. -/
theorem keep_markAll_iff (marks : Nat → Modification) (size : Nat) (layers : List Layer) :
    (∀ layer ∈ markAll marks size layers, layer.modification = .keep) ↔
      ∀ upper ∈ numbers layers, marks upper = .keep := by
  induction layers generalizing size with
  | nil => simp only [markAll, numbers, List.not_mem_nil, false_implies, implies_true]
  | cons layer outer ih => rw [markAll, numbers, List.forall_mem_cons, List.forall_mem_cons, ih]

/-- The modifications of the numbers that layers surround do not matter to the layers. -/
theorem markAll_congr {marks other : Nat → Modification} (size : Nat) (layers : List Layer)
    (h : ∀ id, id < number layers ∨ number layers + size ≤ id → marks id = other id) :
    markAll marks size layers = markAll other size layers := by
  induction layers generalizing size with
  | nil => rfl
  | cons layer outer ih =>
    rw [number] at h
    rw [markAll, markAll, h (number outer) (by omega),
      markFromAll_congr layer.left _ fun id _ hlt => h id (by omega),
      markFromAll_congr layer.right _ fun id hle _ => h id (by omega),
      ih _ fun id hid => h id (by omega)]

end Layer

namespace SpanTree

open Layer

/-- A tree within layers is given its modifications and those of the layers. -/
theorem markFrom_within (marks : Nat → Modification) (tree : SpanTree) (layers : List Layer) :
    (tree.within layers).markFrom marks 0 =
      (tree.markFrom marks (number layers)).within (markAll marks tree.size layers) := by
  induction layers generalizing tree with
  | nil => rfl
  | cons layer outer ih =>
    rw [within, ih, markAll, within, size_wrap]
    congr 1
    rw [wrap, wrap, markFrom, markFromAll_append, markFromAll]
    rfl

/-- Modifications that agree outside of a subtree leave the layers around it alone. -/
theorem modify_within {marks other : Nat → Modification} (tree : SpanTree) (layers : List Layer)
    (h : ∀ id, ¬ (tree.within layers).AtOrBelow id (number layers) → other id = marks id) :
    (tree.within layers).modify (fun span => other span.id) =
      (tree.markFrom other (number layers)).within (markAll marks tree.size layers) := by
  have hlayers : markAll other tree.size layers = markAll marks tree.size layers := by
    refine markAll_congr tree.size layers fun id hid => h id ?_
    rw [atOrBelow_number_iff]
    omega
  rw [modify_eq_markFrom, markFrom_within, hlayers]

end SpanTree

end Synopsis
