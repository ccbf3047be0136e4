import Mathlib.Logic.Basic
import Synopsis.Proofs.Span.Tree

/-!
# Numbers and links of spans

The spans of a tree take consecutive numbers from its root on, so every subtree has an interval of
numbers to itself. The children of a span begin the intervals of its subtrees, and a span names
another as its parent exactly when the other lists it as a child. A tree that is numbered from
elsewhere has the same spans, moved.
-/

namespace Synopsis

/-- A span as it stands in a tree in which its own tree begins at number `base`, below `above`. -/
def Span.moved (base : Nat) (above : Option Nat) (span : Span) : Span :=
  { span with
    id := base + span.id
    parent := (span.parent.map (base + ·)).or above
    children := span.children.map (base + ·) }

namespace SpanTree

/-- A tree has at least its root. -/
theorem size_pos (tree : SpanTree) : 0 < tree.size := by
  cases tree with
  | span node modification children =>
    rw [size]
    exact Nat.succ_pos _

/-- The root of a tree has the number and the parent that the tree is given. -/
theorem exists_root (tree : SpanTree) (id : Nat) (parent : Option Nat) :
    ∃ root ∈ tree.spansFrom id parent, root.id = id ∧ root.parent = parent := by
  cases tree with
  | span node modification children =>
    rw [spansFrom]
    exact ⟨_, List.mem_cons_self, rfl, rfl⟩

/-- The sizes of consecutive trees add up. -/
theorem sizeAll_append (left right : List SpanTree) :
    sizeAll (left ++ right) = sizeAll left + sizeAll right := by
  induction left with
  | nil => rw [List.nil_append, sizeAll, Nat.zero_add]
  | cons tree left ih => rw [List.cons_append, sizeAll, sizeAll, ih, Nat.add_assoc]

/-- Consecutive trees have one span after another. -/
theorem spansFromAll_append (left right : List SpanTree) (next parent : Nat) :
    spansFromAll next parent (left ++ right) =
      spansFromAll next parent left ++ spansFromAll (next + sizeAll left) parent right := by
  induction left generalizing next with
  | nil => rw [List.nil_append, sizeAll, spansFromAll, List.nil_append, Nat.add_zero]
  | cons tree left ih =>
    rw [List.cons_append, spansFromAll, spansFromAll, sizeAll, ih, List.append_assoc, Nat.add_assoc]

/-- The roots of consecutive trees have numbers in the interval of the trees. -/
theorem bounds_of_mem_rootIds {trees : List SpanTree} {first root : Nat}
    (h : root ∈ rootIds first trees) : first ≤ root ∧ root < first + sizeAll trees := by
  induction trees generalizing first with
  | nil => contradiction
  | cons tree trees ih =>
    have hpos := tree.size_pos
    rw [rootIds, List.mem_cons] at h
    rw [sizeAll]
    obtain rfl | h := h
    · omega
    · have := ih h
      omega

mutual

/-- The spans of a tree are numbered one by one from its root on. -/
theorem map_id_spansFrom (tree : SpanTree) (id : Nat) (parent : Option Nat) :
    (tree.spansFrom id parent).map (·.id) = List.range' id tree.size := by
  cases tree with
  | span node modification children =>
    rw [spansFrom, List.map_cons, map_id_spansFromAll children (id + 1) id, size, List.range'_succ]

/-- The spans of consecutive trees are numbered one by one. -/
theorem map_id_spansFromAll (trees : List SpanTree) (next parent : Nat) :
    (spansFromAll next parent trees).map (·.id) = List.range' next (sizeAll trees) := by
  cases trees with
  | nil => rfl
  | cons tree trees =>
    rw [spansFromAll, List.map_append, map_id_spansFrom tree next (some parent),
      map_id_spansFromAll trees (next + tree.size) parent, sizeAll, List.range'_append_1]

end

/-- The number of a span lies in the interval of its tree. -/
theorem bounds_of_mem_spansFrom {tree : SpanTree} {id : Nat} {parent : Option Nat} {span : Span}
    (h : span ∈ tree.spansFrom id parent) : id ≤ span.id ∧ span.id < id + tree.size := by
  have hmem := List.mem_map_of_mem (f := fun span : Span => span.id) h
  rw [map_id_spansFrom] at hmem
  exact List.mem_range'_1.mp hmem

/-- The number of a span lies in the interval of the trees it is among. -/
theorem bounds_of_mem_spansFromAll {trees : List SpanTree} {next parent : Nat} {span : Span}
    (h : span ∈ spansFromAll next parent trees) :
    next ≤ span.id ∧ span.id < next + sizeAll trees := by
  have hmem := List.mem_map_of_mem (f := fun span : Span => span.id) h
  rw [map_id_spansFromAll] at hmem
  exact List.mem_range'_1.mp hmem

mutual

/-- Behind the root of a tree, every span has its parent before it in the tree. -/
theorem parent_of_mem_spansFrom (tree : SpanTree) (id : Nat) (parent : Option Nat) (span : Span)
    (h : span ∈ tree.spansFrom id parent) :
    (span.id = id ∧ span.parent = parent) ∨
      ∃ upper, span.parent = some upper ∧ id ≤ upper ∧ upper < span.id := by
  cases tree with
  | span node modification children =>
    rw [spansFrom, List.mem_cons] at h
    obtain rfl | h := h
    · exact Or.inl ⟨rfl, rfl⟩
    · have hbounds := bounds_of_mem_spansFromAll h
      obtain hparent | ⟨upper, hparent, hle, hlt⟩ := parent_of_mem_spansFromAll children _ _ span h
      · exact Or.inr ⟨id, hparent, Nat.le_refl id, hbounds.1⟩
      · exact Or.inr ⟨upper, hparent, Nat.le_of_succ_le hle, hlt⟩

/-- Every span of consecutive trees has either the parent of the trees or one before it in its tree. -/
theorem parent_of_mem_spansFromAll (trees : List SpanTree) (next parent : Nat) (span : Span)
    (h : span ∈ spansFromAll next parent trees) :
    span.parent = some parent ∨
      ∃ upper, span.parent = some upper ∧ next ≤ upper ∧ upper < span.id := by
  cases trees with
  | nil => contradiction
  | cons tree trees =>
    rw [spansFromAll, List.mem_append] at h
    obtain h | h := h
    · obtain ⟨-, hparent⟩ | hbelow := parent_of_mem_spansFrom tree next (some parent) span h
      · exact Or.inl hparent
      · exact Or.inr hbelow
    · obtain hparent | ⟨upper, hparent, hle, hlt⟩ := parent_of_mem_spansFromAll trees _ parent span h
      · exact Or.inl hparent
      · exact Or.inr ⟨upper, hparent, Nat.le_trans (Nat.le_add_right _ _) hle, hlt⟩

end

mutual

/-- The children of a span have greater numbers than the span, within the interval of its tree. -/
theorem children_of_mem_spansFrom (tree : SpanTree) (id : Nat) (parent : Option Nat) (span : Span)
    (h : span ∈ tree.spansFrom id parent) (child : Nat) (hchild : child ∈ span.children) :
    span.id < child ∧ child < id + tree.size := by
  cases tree with
  | span node modification children =>
    rw [size]
    rw [spansFrom, List.mem_cons] at h
    obtain rfl | h := h
    · have := bounds_of_mem_rootIds hchild
      dsimp only
      omega
    · have := children_of_mem_spansFromAll children _ _ span h child hchild
      omega

/-- The children of a span have greater numbers than the span, within the interval of the trees that
it is among. -/
theorem children_of_mem_spansFromAll (trees : List SpanTree) (next parent : Nat) (span : Span)
    (h : span ∈ spansFromAll next parent trees) (child : Nat) (hchild : child ∈ span.children) :
    span.id < child ∧ child < next + sizeAll trees := by
  cases trees with
  | nil => contradiction
  | cons tree trees =>
    rw [sizeAll]
    rw [spansFromAll, List.mem_append] at h
    obtain h | h := h
    · have := children_of_mem_spansFrom tree _ _ span h child hchild
      omega
    · have := children_of_mem_spansFromAll trees _ _ span h child hchild
      omega

end

/-- Among consecutive trees the roots are the spans that have the parent of the trees. -/
theorem mem_rootIds_iff (trees : List SpanTree) (next parent : Nat) (hlt : parent < next) (span : Span)
    (h : span ∈ spansFromAll next parent trees) :
    span.id ∈ rootIds next trees ↔ span.parent = some parent := by
  induction trees generalizing next with
  | nil => contradiction
  | cons tree trees ih =>
    have hpos := tree.size_pos
    rw [rootIds, List.mem_cons]
    rw [spansFromAll, List.mem_append] at h
    obtain h | h := h
    · obtain ⟨hid, hparent⟩ | ⟨upper, hparent, hle, hbefore⟩ := parent_of_mem_spansFrom tree _ _ span h
      · simp only [hid, hparent, true_or]
      · have hbounds := bounds_of_mem_spansFrom h
        have hroot : span.id ∉ rootIds (next + tree.size) trees := by
          intro hroot
          have := bounds_of_mem_rootIds hroot
          omega
        simp only [hparent, hroot, or_false, Option.some.injEq]
        omega
    · have hbounds := bounds_of_mem_spansFromAll h
      rw [← ih (next + tree.size) (by omega) h]
      exact or_iff_right (by omega)

mutual

/-- Within a tree whose parent stands before it, a span is a child of another exactly when the other
is its parent. -/
theorem mem_children_iff_of_mem_spansFrom (tree : SpanTree) (id : Nat) (parent : Option Nat)
    (hparent : ∀ above, parent = some above → above < id) (upper lower : Span)
    (hupper : upper ∈ tree.spansFrom id parent) (hlower : lower ∈ tree.spansFrom id parent) :
    lower.id ∈ upper.children ↔ lower.parent = some upper.id := by
  -- A root is no child within its own tree, since children have greater numbers than their parents.
  have hroot : lower.id = id → lower.parent = parent →
      (lower.id ∈ upper.children ↔ lower.parent = some upper.id) := by
    intro hid hnone
    have hbounds := bounds_of_mem_spansFrom hupper
    constructor
    · intro hmem
      have := children_of_mem_spansFrom tree _ _ upper hupper _ hmem
      omega
    · intro heq
      have := hparent _ (hnone.symm.trans heq)
      omega
  cases tree with
  | span node modification children =>
    rw [spansFrom, List.mem_cons] at hupper hlower
    obtain rfl | hlower := hlower
    · exact hroot rfl rfl
    · obtain rfl | hupper := hupper
      · exact mem_rootIds_iff children (id + 1) id (Nat.lt_succ_self id) lower hlower
      · exact mem_children_iff_of_mem_spansFromAll children (id + 1) id (Nat.lt_succ_self id)
          upper lower hupper hlower

/-- Among consecutive trees whose parent stands before them, a span is a child of another exactly
when the other is its parent. -/
theorem mem_children_iff_of_mem_spansFromAll (trees : List SpanTree) (next parent : Nat)
    (hlt : parent < next) (upper lower : Span) (hupper : upper ∈ spansFromAll next parent trees)
    (hlower : lower ∈ spansFromAll next parent trees) :
    lower.id ∈ upper.children ↔ lower.parent = some upper.id := by
  cases trees with
  | nil => contradiction
  | cons tree trees =>
    rw [spansFromAll, List.mem_append] at hupper hlower
    -- Spans of different trees have numbers in different intervals, and no link leaves its interval.
    obtain hupper | hupper := hupper <;> obtain hlower | hlower := hlower
    · refine mem_children_iff_of_mem_spansFrom tree next (some parent) ?_ upper lower hupper hlower
      rintro above ⟨⟩
      exact hlt
    · have hbounds := bounds_of_mem_spansFrom hupper
      have hother := bounds_of_mem_spansFromAll hlower
      constructor
      · intro hmem
        have := children_of_mem_spansFrom tree _ _ upper hupper _ hmem
        omega
      · intro heq
        obtain hparent | ⟨above, hparent, hle, -⟩ := parent_of_mem_spansFromAll trees _ _ lower hlower
        all_goals
          have := Option.some.inj (hparent.symm.trans heq)
          omega
    · have hbounds := bounds_of_mem_spansFromAll hupper
      have hother := bounds_of_mem_spansFrom hlower
      constructor
      · intro hmem
        have := children_of_mem_spansFromAll trees _ _ upper hupper _ hmem
        omega
      · intro heq
        obtain ⟨-, hparent⟩ | ⟨above, hparent, -, hbefore⟩ :=
          parent_of_mem_spansFrom tree _ _ lower hlower
        all_goals
          have := Option.some.inj (hparent.symm.trans heq)
          omega
    · exact mem_children_iff_of_mem_spansFromAll trees (next + tree.size) parent (by omega)
        upper lower hupper hlower

end

/-- The roots of consecutive trees move with the first. -/
theorem rootIds_add (base : Nat) (trees : List SpanTree) (first : Nat) :
    rootIds (base + first) trees = (rootIds first trees).map (base + ·) := by
  induction trees generalizing first with
  | nil => rfl
  | cons tree trees ih => rw [rootIds, rootIds, List.map_cons, Nat.add_assoc, ih]

mutual

/-- The spans of a tree move with its root. -/
theorem spansFrom_add (base : Nat) (above : Option Nat) (tree : SpanTree) (id : Nat)
    (parent : Option Nat) :
    tree.spansFrom (base + id) ((parent.map (base + ·)).or above) =
      (tree.spansFrom id parent).map (Span.moved base above) := by
  cases tree with
  | span node modification children =>
    rw [spansFrom, spansFrom, List.map_cons, Nat.add_assoc, rootIds_add,
      spansFromAll_add base above children (id + 1) id]
    rfl

/-- The spans of consecutive trees move with the first root. -/
theorem spansFromAll_add (base : Nat) (above : Option Nat) (trees : List SpanTree)
    (next parent : Nat) :
    spansFromAll (base + next) (base + parent) trees =
      (spansFromAll next parent trees).map (Span.moved base above) := by
  cases trees with
  | nil => rfl
  | cons tree trees =>
    have hfirst := spansFrom_add base above tree next (some parent)
    rw [Option.map_some, Option.some_or] at hfirst
    rw [spansFromAll, spansFromAll, List.map_append, hfirst, Nat.add_assoc,
      spansFromAll_add base above trees (next + tree.size) parent]

end

/-- The spans of a whole tree are numbered from zero on. -/
theorem map_id_spans (tree : SpanTree) : tree.spans.map (·.id) = List.range tree.size := by
  rw [spans, map_id_spansFrom, List.range_eq_range']

/-- A span of a whole tree is the root or has its parent before it. -/
theorem parent_of_mem_spans {tree : SpanTree} {span : Span} (h : span ∈ tree.spans) :
    (span.id = 0 ∧ span.parent = none) ∨ ∃ upper < span.id, span.parent = some upper := by
  obtain hroot | ⟨upper, hparent, -, hlt⟩ := parent_of_mem_spansFrom tree 0 none span h
  · exact Or.inl hroot
  · exact Or.inr ⟨upper, hlt, hparent⟩

/-- A span of a whole tree is a child of another exactly when the other is its parent. -/
theorem mem_children_iff {tree : SpanTree} {upper lower : Span} (hupper : upper ∈ tree.spans)
    (hlower : lower ∈ tree.spans) : lower.id ∈ upper.children ↔ lower.parent = some upper.id :=
  mem_children_iff_of_mem_spansFrom tree 0 none (fun _ h => nomatch h) upper lower hupper hlower

end SpanTree

end Synopsis
