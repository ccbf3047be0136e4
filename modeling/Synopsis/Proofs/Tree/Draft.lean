import Synopsis.Tree.Builder
import Synopsis.Proofs.Tree.Outline

/-!
# Drafts of trees under construction

A draft is a partly built tree without a table: nothing yet, a stack of started nodes with the finished
outlines below each of them, or a whole outline. Its rows are the table that a builder would have
filled for it. Hanging an outline below the innermost started node appends the outline's rows and one
link, and that is all that adding a node or closing one can do to the table.
-/

namespace Synopsis

/-- A started node: its label so far and the finished outlines below it. -/
structure Frame where
  label : Label
  finished : List Outline

namespace Frame

/-- Put a finished outline behind those that a started node has. -/
def add (frame : Frame) (outline : Outline) : Frame :=
  { frame with finished := frame.finished ++ [outline] }

/-- The outline of a started node if nothing more is put below it. -/
def close (frame : Frame) : Outline := .node frame.label frame.finished

/-- The number of nodes that started nodes, from the innermost outwards, have together. -/
def total : List Frame → Nat
  | [] => 0
  | frame :: outer => total outer + 1 + Outline.sizeAll frame.finished

/-- The number of the innermost started node. -/
def innermost? : List Frame → Option Nat
  | [] => none
  | _ :: outer => some (total outer)

/-- The numbers of started nodes, from the innermost outwards. -/
def ids : List Frame → List Nat
  | [] => []
  | _ :: outer => total outer :: ids outer

/-- The rows of started nodes and of everything finished below them, once one more node has been linked
to the innermost of them. -/
def linkedRows : List Frame → List Node
  | [] => []
  | frame :: outer =>
    linkedRows outer ++
      frame.label.row (innermost? outer)
          (Outline.rootIds (total outer + 1) frame.finished ++ [total (frame :: outer)]) ::
        Outline.rowsAll (total outer + 1) (total outer) frame.finished

/-- Started nodes have one row for each node. -/
theorem length_linkedRows (frames : List Frame) : (linkedRows frames).length = total frames := by
  induction frames with
  | nil => rfl
  | cons frame outer ih =>
    rw [linkedRows, total, List.length_append, List.length_cons, Outline.length_rowsAll, ih]
    omega

/-- Adding an outline to the innermost started node links its root and appends its rows. -/
theorem linkedRows_append_rows_add (frame : Frame) (outer : List Frame) (outline : Outline) :
    linkedRows outer ++ (frame.add outline).close.rows (total outer) (innermost? outer) =
      linkedRows (frame :: outer) ++ outline.rows (total (frame :: outer)) (some (total outer)) := by
  have hnext : total outer + 1 + Outline.sizeAll frame.finished = total (frame :: outer) := rfl
  rw [linkedRows, close, Outline.rows, add]
  simp only [Outline.rootIds_append, Outline.rowsAll_append, Outline.rootIds, Outline.rowsAll, hnext,
    List.append_nil, List.append_assoc, List.cons_append]

end Frame

/-- A tree under construction. -/
inductive Draft where
  /-- There are no nodes. -/
  | blank
  /-- Some nodes are started, the innermost of them given first. -/
  | growing (inner : Frame) (outer : List Frame)
  /-- The root is finished. -/
  | whole (outline : Outline)

namespace Draft

/-- The draft in which an outline is hung below started nodes, or is the root where there are none. -/
def hang (outline : Outline) : List Frame → Draft
  | [] => .whole outline
  | frame :: outer => .growing (frame.add outline) outer

/-- The started nodes below which the next node goes, unless the root is finished. -/
def frames : Draft → Except Misuse (List Frame)
  | .blank => .ok []
  | .growing inner outer => .ok (inner :: outer)
  | .whole _ => .error .rootFinished

/-- The table of a draft. -/
def rows : Draft → List Node
  | .blank => []
  | .growing inner outer =>
    Frame.linkedRows outer ++ inner.close.rows (Frame.total outer) (Frame.innermost? outer)
  | .whole outline => outline.rows 0 none

/-- The numbers of the started nodes of a draft, from the innermost outwards. -/
def started : Draft → List Nat
  | .blank => []
  | .growing inner outer => Frame.ids (inner :: outer)
  | .whole _ => []

/-- The number of the root of a draft. -/
def root? : Draft → Option Nat
  | .blank => none
  | .growing _ _ => some 0
  | .whole _ => some 0

/-- The builder that has reached a draft. -/
def builder (source : Source) (draft : Draft) : Builder :=
  { source, nodes := draft.rows.toArray, started := draft.started, root := draft.root? }

/-- The table after an outline has been hung below started nodes. -/
theorem rows_hang (outline : Outline) (frames : List Frame) :
    (hang outline frames).rows =
      Frame.linkedRows frames ++ outline.rows (Frame.total frames) (Frame.innermost? frames) := by
  cases frames with
  | nil => rfl
  | cons frame outer => exact Frame.linkedRows_append_rows_add frame outer outline

/-- Hanging an outline below started nodes leaves them started. -/
theorem started_hang (outline : Outline) (frames : List Frame) :
    (hang outline frames).started = Frame.ids frames := by
  cases frames with
  | nil => rfl
  | cons frame outer => rfl

/-- A draft in which something is hung has a root. -/
theorem root?_hang (outline : Outline) (frames : List Frame) :
    (hang outline frames).root? = some 0 := by
  cases frames with
  | nil => rfl
  | cons frame outer => rfl

/-- A list changed at the place behind its first part. -/
theorem modify_append_cons {α : Type} (before after : List α) (a : α) (f : α → α) :
    (before ++ a :: after).modify before.length f = before ++ f a :: after := by
  induction before with
  | nil => rfl
  | cons b before ih => simp only [List.cons_append, List.length_cons, List.modify_succ_cons, ih]

/-- Changing the row of the innermost started node changes nothing but that row. -/
theorem modify_rows_growing (inner : Frame) (outer : List Frame) (f : Node → Node) :
    (Draft.growing inner outer).rows.modify (Frame.total outer) f =
      Frame.linkedRows outer ++
        f (inner.label.row (Frame.innermost? outer)
            (Outline.rootIds (Frame.total outer + 1) inner.finished)) ::
          Outline.rowsAll (Frame.total outer + 1) (Frame.total outer) inner.finished := by
  rw [rows, Frame.close, Outline.rows, ← Frame.length_linkedRows outer]
  exact modify_append_cons _ _ _ _

/-- The number of rows of a growing draft is the number of its nodes. -/
theorem length_rows_growing (inner : Frame) (outer : List Frame) :
    (Draft.growing inner outer).rows.length = Frame.total (inner :: outer) := by
  rw [rows, List.length_append, Frame.length_linkedRows, Outline.length_rows, Frame.close,
    Outline.size, Frame.total]
  omega

/-- The row of the innermost started node. -/
theorem getElem?_rows_growing (inner : Frame) (outer : List Frame) :
    (Draft.growing inner outer).rows[Frame.total outer]? =
      some (inner.label.row (Frame.innermost? outer)
        (Outline.rootIds (Frame.total outer + 1) inner.finished)) := by
  rw [rows, Frame.close, Outline.rows,
    List.getElem?_append_right (Nat.le_of_eq (Frame.length_linkedRows outer)),
    Frame.length_linkedRows, Nat.sub_self]
  rfl

end Draft

end Synopsis
