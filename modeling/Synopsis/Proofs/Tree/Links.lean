import Synopsis.Proofs.Tree.Unfold

/-!
# Links of a stored outline

In a table that is filled with one outline every number has an outline stored at it. All of a row's
links can be read off there: a row names as children exactly the rows that name it as their parent, it
names them in ascending order, and only the root has no parent. Parents come before their children.
-/

namespace Synopsis.Outline

variable {table : Array Node}

/-- What a row lists as children has an outline stored at its number, with that row as parent. -/
theorem Stored.child {outline : Outline} {id child : Nat} {parent : Option Nat} {row : Node}
    (h : outline.Stored table id parent) (hrow : table[id]? = some row) (hchild : child ∈ row.children) :
    ∃ below, Stored table child (some id) below := by
  cases outline with
  | node label children =>
    rw [h.row_eq, Option.some.injEq] at hrow
    subst row
    obtain ⟨below, -, hstored⟩ := h.children.exists_of_mem hchild
    exact ⟨below, hstored⟩

/-- The row of a stored outline has the outline's parent and its children in ascending order. -/
theorem Stored.row {outline : Outline} {id : Nat} {parent : Option Nat}
    (h : outline.Stored table id parent) :
    ∃ row, table[id]? = some row ∧ row.label = outline.label ∧ row.parent = parent ∧
      row.children.Pairwise (· < ·) := by
  cases outline with
  | node label children => exact ⟨_, h.row_eq, rfl, rfl, pairwise_rootIds _ _⟩

mutual

/-- Every number of a stored outline has an outline stored at it. It is the number of the root, or an
earlier row lists it and is its parent. -/
theorem Stored.locate (outline : Outline) (id target : Nat) (parent : Option Nat)
    (h : outline.Stored table id parent) (hfirst : id ≤ target) (hlast : target < id + outline.size) :
    ∃ above found, Stored table target above found ∧
      (target = id ∧ above = parent ∨
        ∃ number row, number < target ∧ above = some number ∧ table[number]? = some row ∧
          target ∈ row.children) := by
  cases outline with
  | node label children =>
    by_cases hroot : target = id
    · subst target
      exact ⟨parent, _, h, Or.inl ⟨rfl, rfl⟩⟩
    · rw [size] at hlast
      obtain ⟨above, found, hfound, hlink⟩ := StoredAll.locate children (id + 1) id target h.children _
        h.row_eq (Nat.lt_succ_self id) (fun _ hchild => hchild) (by omega) (by omega)
      exact ⟨above, found, hfound, Or.inr hlink⟩

/-- Every number of consecutive stored outlines has an outline stored at it, and an earlier row that
lists it and is its parent. -/
theorem StoredAll.locate (outlines : List Outline) (next parent target : Nat)
    (h : StoredAll table next parent outlines) (row : Node) (hrow : table[parent]? = some row)
    (hparent : parent < next) (hlisted : ∀ id ∈ rootIds next outlines, id ∈ row.children)
    (hfirst : next ≤ target) (hlast : target < next + sizeAll outlines) :
    ∃ above found, Stored table target above found ∧
      ∃ number row, number < target ∧ above = some number ∧ table[number]? = some row ∧
        target ∈ row.children := by
  cases outlines with
  | nil =>
    rw [sizeAll] at hlast
    omega
  | cons outline rest =>
    obtain ⟨hhead, htail⟩ := h
    rw [sizeAll] at hlast
    by_cases hin : target < next + outline.size
    · obtain ⟨above, found, hfound, ⟨rfl, rfl⟩ | hlink⟩ :=
        Stored.locate outline next target (some parent) hhead hfirst hin
      · exact ⟨_, found, hfound, parent, row, hparent, rfl, hrow, hlisted target List.mem_cons_self⟩
      · exact ⟨above, found, hfound, hlink⟩
    · exact StoredAll.locate rest (next + outline.size) parent target htail row hrow (by omega)
        (fun id hid => hlisted id (List.mem_cons_of_mem _ hid)) (by omega) (by omega)

end

/-- A stored outline lies within its table. -/
theorem Stored.add_size_le {outline : Outline} {id : Nat} {parent : Option Nat}
    (h : outline.Stored table id parent) : id + outline.size ≤ table.size := by
  have hpos := outline.size_pos
  obtain ⟨above, last, hlast, -⟩ := Stored.locate outline id (id + outline.size - 1) parent h
    (by omega) (by omega)
  obtain ⟨row, hrow, -⟩ := hlast.row
  obtain ⟨hlt, -⟩ := Array.getElem?_eq_some_iff.mp hrow
  omega

/-- Whether a table is filled with one outline. -/
structure Fills (outline : Outline) (table : Array Node) : Prop where
  stored : outline.Stored table 0 none
  size_eq : table.size = outline.size

/-- The rows of an outline fill a table. -/
theorem fills_rows (outline : Outline) : outline.Fills (outline.rows 0 none).toArray where
  stored := stored_of_rows outline _ none [] [] (by simp)
  size_eq := by rw [List.size_toArray, length_rows]

namespace Fills

variable {outline : Outline}

/-- Every row of a filled table is that of an outline stored at its number. It is the root, or an
earlier row lists it and is its parent. -/
theorem locate (h : outline.Fills table) {id : Nat} {node : Node} (hnode : table[id]? = some node) :
    ∃ found, Stored table id node.parent found ∧
      (id = 0 ∧ node.parent = none ∨
        ∃ number row, number < id ∧ node.parent = some number ∧ table[number]? = some row ∧
          id ∈ row.children) := by
  obtain ⟨hid, -⟩ := Array.getElem?_eq_some_iff.mp hnode
  obtain ⟨above, found, hfound, hlink⟩ := Stored.locate outline 0 id none h.stored (Nat.zero_le _)
    (by rw [← h.size_eq]; omega)
  obtain ⟨row, hrow, -, hparent, -⟩ := hfound.row
  rw [hnode, Option.some.injEq] at hrow
  subst row
  subst above
  exact ⟨found, hfound, hlink⟩

/-- A row lists exactly the rows that have it as their parent. -/
theorem mem_children_iff (h : outline.Fills table) {parent child : Nat} {above : Node}
    (habove : table[parent]? = some above) :
    child ∈ above.children ↔ ∃ below, table[child]? = some below ∧ below.parent = some parent := by
  constructor
  · intro hchild
    obtain ⟨found, hfound, -⟩ := h.locate habove
    obtain ⟨below, hbelow⟩ := hfound.child habove hchild
    obtain ⟨row, hrow, -, hparent, -⟩ := hbelow.row
    exact ⟨row, hrow, hparent⟩
  · rintro ⟨below, hbelow, hparent⟩
    obtain ⟨-, -, ⟨-, hnone⟩ | ⟨number, row, -, hnumber, hrow, hlisted⟩⟩ := h.locate hbelow
    · rw [hparent] at hnone
      contradiction
    · rw [hparent, Option.some.injEq] at hnumber
      subst number
      rw [habove, Option.some.injEq] at hrow
      subst row
      exact hlisted

/-- A row lists its children in ascending order. -/
theorem children_ascending (h : outline.Fills table) {id : Nat} {node : Node}
    (hnode : table[id]? = some node) : node.children.Pairwise (· < ·) := by
  obtain ⟨found, hfound, -⟩ := h.locate hnode
  obtain ⟨row, hrow, -, -, hchildren⟩ := hfound.row
  rw [hnode, Option.some.injEq] at hrow
  subst row
  exact hchildren

/-- A node of a tree whose table is filled with an outline has an outline of its own, from which its
host tree and the rows below it can be read. -/
theorem exists_at {tree : Tree} (h : outline.Fills tree.nodes) {id : Nat} {node : Node}
    (hnode : tree.nodes[id]? = some node) :
    ∃ found, Stored tree.nodes id node.parent found ∧ found.label = node.label ∧
      tree.host? id = some (found.host tree.source) ∧ tree.rowsFrom id = found.rows id node.parent := by
  obtain ⟨found, hfound, -⟩ := h.locate hnode
  have hsize : found.size ≤ tree.size := Nat.le_trans (Nat.le_add_left _ _) hfound.add_size_le
  obtain ⟨row, hrow, hlabel, -, -⟩ := hfound.row
  rw [hnode, Option.some.injEq] at hrow
  subst row
  refine ⟨found, hfound, hlabel.symm, hostWithin_of_stored tree found id _ _ hfound hsize, ?_⟩
  rw [Tree.rowsFrom, Tree.walk, walkWithin_of_stored tree found id _ _ hfound hsize,
    filterMap_range'_of_stored found tree.nodes id _ hfound]

end Fills

end Synopsis.Outline
