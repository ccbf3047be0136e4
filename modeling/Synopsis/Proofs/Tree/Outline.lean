import Synopsis.Tree

/-!
# Outlines of stored trees

An outline is a tree as such: what the table says about each node alone, and the children in order.
Its rows are the table that stores it with the nodes numbered in pre-order from a given number on. The
relation `Stored` reads the rows of an outline off any table that has them in their place, and every
number that the rows take belongs to a smaller outline stored there.
-/

namespace Synopsis

/-- What a row of a table says about its node alone. -/
structure Label where
  kind : Kind
  range : Range
  synthetic : Bool
  sealed : Bool
deriving DecidableEq, Repr

/-- The row of a labelled node with its links. -/
def Label.row (label : Label) (parent : Option Nat) (children : List Nat) : Node :=
  { kind := label.kind, range := label.range, parent, children,
    synthetic := label.synthetic, sealed := label.sealed }

/-- What a row says about its node alone. -/
def Node.label (node : Node) : Label := ⟨node.kind, node.range, node.synthetic, node.sealed⟩

/-- A tree of labels. -/
inductive Outline where
  | node (label : Label) (children : List Outline)

namespace Outline

/-- The label of the root of an outline. -/
def label : Outline → Label
  | .node label _ => label

mutual

/-- The number of nodes of an outline. -/
def size : Outline → Nat
  | .node _ children => sizeAll children + 1

/-- The number of nodes of a list of outlines. -/
def sizeAll : List Outline → Nat
  | [] => 0
  | outline :: rest => outline.size + sizeAll rest

end

/-- The numbers of the roots of consecutive outlines, the first of which has number `next`. -/
def rootIds (next : Nat) : List Outline → List Nat
  | [] => []
  | outline :: rest => next :: rootIds (next + outline.size) rest

mutual

/-- The rows of an outline whose root has number `id`. -/
def rows (id : Nat) (parent : Option Nat) : Outline → List Node
  | .node label children =>
    label.row parent (rootIds (id + 1) children) :: rowsAll (id + 1) id children

/-- The rows of consecutive outlines below one parent. -/
def rowsAll (next parent : Nat) : List Outline → List Node
  | [] => []
  | outline :: rest =>
    outline.rows next (some parent) ++ rowsAll (next + outline.size) parent rest

end

/-- An outline has at least its root. -/
theorem size_pos (outline : Outline) : 0 < outline.size := by
  cases outline with
  | node label children => rw [size]; exact Nat.succ_pos _

/-- The second of two lists in a row is numbered on from the first. -/
theorem rootIds_append (next : Nat) (left right : List Outline) :
    rootIds next (left ++ right) = rootIds next left ++ rootIds (next + sizeAll left) right := by
  induction left generalizing next with
  | nil => simp [rootIds, sizeAll]
  | cons outline left ih => simp only [List.cons_append, rootIds, sizeAll, ih, Nat.add_assoc]

/-- The rows of two lists in a row follow one another. -/
theorem rowsAll_append (next parent : Nat) (left right : List Outline) :
    rowsAll next parent (left ++ right) =
      rowsAll next parent left ++ rowsAll (next + sizeAll left) parent right := by
  induction left generalizing next with
  | nil => simp [rowsAll, sizeAll]
  | cons outline left ih =>
    simp only [List.cons_append, rowsAll, sizeAll, ih, List.append_assoc, Nat.add_assoc]

mutual

/-- An outline has one row for each node. -/
theorem length_rows (outline : Outline) (id : Nat) (parent : Option Nat) :
    (outline.rows id parent).length = outline.size := by
  cases outline with
  | node label children => rw [rows, size, List.length_cons, length_rowsAll children]

/-- A list of outlines has one row for each node. -/
theorem length_rowsAll (outlines : List Outline) (next parent : Nat) :
    (rowsAll next parent outlines).length = sizeAll outlines := by
  cases outlines with
  | nil => rfl
  | cons outline rest =>
    rw [rowsAll, sizeAll, List.length_append, length_rows outline, length_rowsAll rest]

end

/-- The roots of consecutive outlines have numbers among those of their nodes. -/
theorem bounds_of_mem_rootIds {id next : Nat} {outlines : List Outline}
    (h : id ∈ rootIds next outlines) : next ≤ id ∧ id < next + sizeAll outlines := by
  induction outlines generalizing next with
  | nil => simp [rootIds] at h
  | cons outline rest ih =>
    have hpos := outline.size_pos
    rw [sizeAll]
    rcases List.mem_cons.mp h with rfl | hrest
    · omega
    · have hbounds := ih hrest
      omega

/-- The roots of consecutive outlines are numbered in ascending order. -/
theorem pairwise_rootIds (next : Nat) (outlines : List Outline) :
    (rootIds next outlines).Pairwise (· < ·) := by
  induction outlines generalizing next with
  | nil => exact List.Pairwise.nil
  | cons outline rest ih =>
    refine List.Pairwise.cons ?_ (ih _)
    intro id hid
    have hpos := outline.size_pos
    have hbounds := bounds_of_mem_rootIds hid
    omega

mutual

/-- Whether a table holds the rows of an outline from the number `id` on. -/
def Stored (table : Array Node) (id : Nat) (parent : Option Nat) : Outline → Prop
  | .node label children =>
    table[id]? = some (label.row parent (rootIds (id + 1) children)) ∧
      StoredAll table (id + 1) id children

/-- Whether a table holds the rows of consecutive outlines from the number `next` on. -/
def StoredAll (table : Array Node) (next parent : Nat) : List Outline → Prop
  | [] => True
  | outline :: rest =>
    outline.Stored table next (some parent) ∧ StoredAll table (next + outline.size) parent rest

end

mutual

/-- A table with the rows of an outline among its own stores the outline. -/
theorem stored_of_rows (outline : Outline) (table : Array Node) (parent : Option Nat)
    (before after : List Node)
    (h : table.toList = before ++ outline.rows before.length parent ++ after) :
    outline.Stored table before.length parent := by
  cases outline with
  | node label children =>
    rw [rows] at h
    refine ⟨?_, ?_⟩
    · rw [← Array.getElem?_toList, h]
      simp
    · have hchildren := storedAll_of_rowsAll children table before.length
        (before ++ [label.row parent (rootIds (before.length + 1) children)]) after
      rw [List.length_append, List.length_singleton] at hchildren
      apply hchildren
      rw [h]
      simp

/-- A table with the rows of consecutive outlines among its own stores the outlines. -/
theorem storedAll_of_rowsAll (outlines : List Outline) (table : Array Node) (parent : Nat)
    (before after : List Node)
    (h : table.toList = before ++ rowsAll before.length parent outlines ++ after) :
    StoredAll table before.length parent outlines := by
  cases outlines with
  | nil => trivial
  | cons outline rest =>
    rw [rowsAll] at h
    refine ⟨?_, ?_⟩
    · apply stored_of_rows outline table (some parent) before
        (rowsAll (before.length + outline.size) parent rest ++ after)
      rw [h]
      simp
    · have hrest := storedAll_of_rowsAll rest table parent
        (before ++ outline.rows before.length (some parent)) after
      rw [List.length_append, length_rows] at hrest
      apply hrest
      rw [h]
      simp

end

/-- The root of a stored outline has its row at the outline's number. -/
theorem Stored.row_eq {table : Array Node} {id : Nat} {parent : Option Nat} {label : Label}
    {children : List Outline} (h : (Outline.node label children).Stored table id parent) :
    table[id]? = some (label.row parent (rootIds (id + 1) children)) := by
  rw [Stored] at h
  exact h.1

/-- The children of a stored outline are stored behind its root. -/
theorem Stored.children {table : Array Node} {id : Nat} {parent : Option Nat} {label : Label}
    {children : List Outline} (h : (Outline.node label children).Stored table id parent) :
    StoredAll table (id + 1) id children := by
  rw [Stored] at h
  exact h.2

/-- Each root of consecutive stored outlines has an outline stored at its number. -/
theorem StoredAll.exists_of_mem {table : Array Node} {id next parent : Nat} {outlines : List Outline}
    (h : StoredAll table next parent outlines) (hid : id ∈ rootIds next outlines) :
    ∃ outline ∈ outlines, outline.Stored table id (some parent) := by
  induction outlines generalizing next with
  | nil => simp [rootIds] at hid
  | cons outline rest ih =>
    obtain ⟨hfirst, hrest⟩ := h
    rcases List.mem_cons.mp hid with rfl | hmem
    · exact ⟨outline, List.mem_cons_self, hfirst⟩
    · obtain ⟨found, hfound, hstored⟩ := ih hrest hmem
      exact ⟨found, List.mem_cons_of_mem _ hfound, hstored⟩

end Outline

end Synopsis
