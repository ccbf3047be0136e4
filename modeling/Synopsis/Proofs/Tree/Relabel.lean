import Synopsis.Proofs.Tree.Draft

/-!
# Relabelling one node

A change of the label of one numbered node can be made in the tree or in the table, with the same
result. A number that belongs to no node changes nothing, and the numbers and links of all nodes stay
what they are.
-/

namespace Synopsis

/-- Change what a row says about its node alone. -/
def Node.relabel (f : Label → Label) (node : Node) : Node :=
  (f node.label).row node.parent node.children

/-- Change the row with one number in a list of rows that begins with the number `next`. -/
def relabelRows (f : Label → Label) (target next : Nat) : List Node → List Node
  | [] => []
  | node :: rest =>
    (if next = target then node.relabel f else node) :: relabelRows f target (next + 1) rest

/-- The rows of two lists in a row are changed separately. -/
theorem relabelRows_append (f : Label → Label) (target next : Nat) (left right : List Node) :
    relabelRows f target next (left ++ right) =
      relabelRows f target next left ++ relabelRows f target (next + left.length) right := by
  induction left generalizing next with
  | nil => rfl
  | cons node left ih =>
    have hnext : next + 1 + left.length = next + (left.length + 1) := by omega
    simp only [List.cons_append, relabelRows, ih, List.length_cons, hnext]

/-- Rows behind the wanted one are left alone. -/
theorem relabelRows_of_lt (f : Label → Label) (target next : Nat) (nodes : List Node)
    (h : target < next) : relabelRows f target next nodes = nodes := by
  induction nodes generalizing next with
  | nil => rfl
  | cons node rest ih => rw [relabelRows, if_neg (by omega), ih _ (by omega)]

/-- Changing the row with one number is changing the list at one place. -/
theorem relabelRows_add_eq_modify (f : Label → Label) (next i : Nat) (nodes : List Node) :
    relabelRows f (next + i) next nodes = nodes.modify i (Node.relabel f) := by
  induction nodes generalizing next i with
  | nil => rw [relabelRows, List.modify_nil]
  | cons node rest ih =>
    cases i with
    | zero =>
      rw [Nat.add_zero, relabelRows, if_pos rfl, relabelRows_of_lt f _ _ _ (Nat.lt_succ_self _), List.modify_zero_cons]
    | succ i =>
      have htarget : next + (i + 1) = next + 1 + i := by omega
      rw [relabelRows, if_neg (by omega), List.modify_succ_cons, htarget, ih]

namespace Outline

mutual

/-- Change the label of the node with one number in an outline whose root has number `id`. -/
def relabel (f : Label → Label) (target id : Nat) : Outline → Outline
  | .node label children =>
    .node (if id = target then f label else label) (relabelAll f target (id + 1) children)

/-- Change the label of the node with one number in consecutive outlines. -/
def relabelAll (f : Label → Label) (target next : Nat) : List Outline → List Outline
  | [] => []
  | outline :: rest => outline.relabel f target next :: relabelAll f target (next + outline.size) rest

end

variable (f : Label → Label) (target : Nat)

mutual

/-- Relabelling keeps the number of nodes. -/
theorem size_relabel (outline : Outline) (id : Nat) :
    (outline.relabel f target id).size = outline.size := by
  cases outline with
  | node label children => rw [relabel, size, size, sizeAll_relabelAll children]

/-- Relabelling keeps the number of nodes of a list. -/
theorem sizeAll_relabelAll (outlines : List Outline) (next : Nat) :
    sizeAll (relabelAll f target next outlines) = sizeAll outlines := by
  cases outlines with
  | nil => rfl
  | cons outline rest => rw [relabelAll, sizeAll, sizeAll, size_relabel outline, sizeAll_relabelAll rest]

end

mutual

/-- A number that belongs to no node of an outline changes nothing in it. -/
theorem relabel_eq_self (outline : Outline) (id : Nat)
    (h : target < id ∨ id + outline.size ≤ target) : outline.relabel f target id = outline := by
  cases outline with
  | node label children =>
    rw [size] at h
    rw [relabel, if_neg (by omega), relabelAll_eq_self children (id + 1) (by omega)]

/-- A number that belongs to no node of consecutive outlines changes nothing in them. -/
theorem relabelAll_eq_self (outlines : List Outline) (next : Nat)
    (h : target < next ∨ next + sizeAll outlines ≤ target) :
    relabelAll f target next outlines = outlines := by
  cases outlines with
  | nil => rfl
  | cons outline rest =>
    rw [sizeAll] at h
    rw [relabelAll, relabel_eq_self outline next (by omega),
      relabelAll_eq_self rest (next + outline.size) (by omega)]

end

/-- The outlines of two lists in a row are relabelled separately. -/
theorem relabelAll_append (left right : List Outline) (next : Nat) :
    relabelAll f target next (left ++ right) =
      relabelAll f target next left ++ relabelAll f target (next + sizeAll left) right := by
  induction left generalizing next with
  | nil => rfl
  | cons outline left ih =>
    simp only [List.cons_append, relabelAll, sizeAll, ih, Nat.add_assoc]

/-- Relabelling keeps the numbers of roots. -/
theorem rootIds_relabelAll (outlines : List Outline) (first next : Nat) :
    rootIds first (relabelAll f target next outlines) = rootIds first outlines := by
  induction outlines generalizing first next with
  | nil => rfl
  | cons outline rest ih => rw [relabelAll, rootIds, rootIds, size_relabel, ih]

/-- A change of the label of a row is made in the label alone. -/
theorem row_ite (id : Nat) (label : Label) (parent : Option Nat) (children : List Nat) :
    (if id = target then f label else label).row parent children =
      if id = target then (label.row parent children).relabel f else label.row parent children := by
  split <;> rfl

mutual

/-- Relabelling an outline is relabelling its rows. -/
theorem rows_relabel (outline : Outline) (id : Nat) (parent : Option Nat) :
    (outline.relabel f target id).rows id parent =
      relabelRows f target id (outline.rows id parent) := by
  cases outline with
  | node label children =>
    rw [relabel, rows, rows, relabelRows, rootIds_relabelAll, rowsAll_relabelAll children, row_ite]

/-- Relabelling consecutive outlines is relabelling their rows. -/
theorem rowsAll_relabelAll (outlines : List Outline) (next parent : Nat) :
    rowsAll next parent (relabelAll f target next outlines) =
      relabelRows f target next (rowsAll next parent outlines) := by
  cases outlines with
  | nil => rfl
  | cons outline rest =>
    rw [relabelAll, rowsAll, rowsAll, relabelRows_append, length_rows, size_relabel,
      rows_relabel outline, rowsAll_relabelAll rest]

end

end Outline

namespace Frame

/-- Change the label of the node with one number among started nodes and what is below them. -/
def relabelAll (f : Label → Label) (target : Nat) : List Frame → List Frame
  | [] => []
  | frame :: outer =>
    { label := if total outer = target then f frame.label else frame.label
      finished := Outline.relabelAll f target (total outer + 1) frame.finished } ::
      relabelAll f target outer

variable (f : Label → Label) (target : Nat)

/-- Relabelling keeps the number of nodes of started nodes. -/
theorem total_relabelAll (frames : List Frame) : total (relabelAll f target frames) = total frames := by
  induction frames with
  | nil => rfl
  | cons frame outer ih => rw [relabelAll, total, total, ih, Outline.sizeAll_relabelAll]

/-- A number behind those of started nodes changes nothing in them. -/
theorem relabelAll_eq_self (frames : List Frame) (h : total frames ≤ target) :
    relabelAll f target frames = frames := by
  induction frames with
  | nil => rfl
  | cons frame outer ih =>
    rw [total] at h
    rw [relabelAll, if_neg (by omega), Outline.relabelAll_eq_self f target _ _ (by omega),
      ih (by omega)]

/-- Relabelling keeps the number of the innermost started node. -/
theorem innermost?_relabelAll (frames : List Frame) :
    innermost? (relabelAll f target frames) = innermost? frames := by
  cases frames with
  | nil => rfl
  | cons frame outer => rw [relabelAll, innermost?, innermost?, total_relabelAll]

/-- Relabelling keeps the numbers of started nodes. -/
theorem ids_relabelAll (frames : List Frame) : ids (relabelAll f target frames) = ids frames := by
  induction frames with
  | nil => rfl
  | cons frame outer ih => rw [relabelAll, ids, ids, ih, total_relabelAll]

/-- Relabelling started nodes is relabelling their rows. -/
theorem linkedRows_relabelAll (frames : List Frame) :
    linkedRows (relabelAll f target frames) = relabelRows f target 0 (linkedRows frames) := by
  induction frames with
  | nil => rfl
  | cons frame outer ih =>
    have htotal : total (relabelAll f target (frame :: outer)) = total (frame :: outer) :=
      total_relabelAll f target (frame :: outer)
    rw [relabelAll] at htotal
    rw [relabelAll, linkedRows, linkedRows, relabelRows_append, relabelRows, ih, htotal,
      length_linkedRows, total_relabelAll, innermost?_relabelAll, Outline.rootIds_relabelAll,
      Outline.rowsAll_relabelAll, Outline.row_ite, Nat.zero_add]

end Frame

namespace Draft

/-- Change the label of the node with one number in a draft. -/
def relabel (f : Label → Label) (target : Nat) : Draft → Draft
  | .blank => .blank
  | .growing inner outer =>
    .growing
      { label := if Frame.total outer = target then f inner.label else inner.label
        finished := Outline.relabelAll f target (Frame.total outer + 1) inner.finished }
      (Frame.relabelAll f target outer)
  | .whole outline => .whole (outline.relabel f target 0)

/-- Relabelling a draft is relabelling its table. -/
theorem rows_relabel (f : Label → Label) (target : Nat) (draft : Draft) :
    (draft.relabel f target).rows = draft.rows.modify target (Node.relabel f) := by
  rw [← relabelRows_add_eq_modify f 0 target, Nat.zero_add]
  cases draft with
  | blank => rfl
  | growing inner outer =>
    rw [relabel, rows, rows, relabelRows_append, Frame.linkedRows_relabelAll, Frame.length_linkedRows,
      Frame.total_relabelAll, Frame.innermost?_relabelAll, Nat.zero_add]
    congr 1
    exact Outline.rows_relabel f target inner.close (Frame.total outer) (Frame.innermost? outer)
  | whole outline => exact Outline.rows_relabel f target outline 0 none

/-- Relabelling the node that was hung last changes its own label. -/
theorem relabel_hang (f : Label → Label) (label : Label) (children : List Outline)
    (frames : List Frame) :
    (hang (.node label children) frames).relabel f (Frame.total frames) =
      hang (.node (f label) children) frames := by
  have hroot : ∀ id, (Outline.node label children).relabel f id id = .node (f label) children := by
    intro id
    rw [Outline.relabel, if_pos rfl, Outline.relabelAll_eq_self f id _ _ (Or.inl (Nat.lt_succ_self id))]
  cases frames with
  | nil => exact congrArg Draft.whole (hroot 0)
  | cons frame outer =>
    have hnext : Frame.total outer + 1 + Outline.sizeAll frame.finished = Frame.total (frame :: outer) := rfl
    have hearlier : Frame.total outer ≠ Frame.total (frame :: outer) := by omega
    rw [hang, relabel, if_neg hearlier, Frame.relabelAll_eq_self f _ outer (by omega), Frame.add,
      Outline.relabelAll_append, Outline.relabelAll_eq_self f _ frame.finished _ (by omega), hnext,
      Outline.relabelAll, hroot]
    rfl

/-- Relabelling a draft leaves the same nodes started. -/
theorem started_relabel (f : Label → Label) (target : Nat) (draft : Draft) :
    (draft.relabel f target).started = draft.started := by
  cases draft with
  | blank => rfl
  | growing inner outer =>
    rw [relabel, started, started, Frame.ids, Frame.ids, Frame.ids_relabelAll, Frame.total_relabelAll]
  | whole outline => rfl

/-- Relabelling a draft keeps its root. -/
theorem root?_relabel (f : Label → Label) (target : Nat) (draft : Draft) :
    (draft.relabel f target).root? = draft.root? := by
  cases draft <;> rfl

end Draft

end Synopsis
