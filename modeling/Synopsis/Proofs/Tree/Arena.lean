import Mathlib.Data.List.Chain
import Synopsis.Proofs.Tree.Links
import Synopsis.Proofs.Tree.Session

/-!
# Links of a builder

The table of a builder stores the outline that its draft has once all started nodes are closed, so its
links are those of a stored outline. The started nodes are a chain of parents up to the root. Every
call keeps the ranges in order, and a session may go on after any misuse, so all of this holds in every
state that a session reaches.
-/

namespace Synopsis

namespace Frame

/-- The outline that is left when an outline is hung below started nodes and all of them are closed. -/
def plug (outline : Outline) : List Frame → Outline
  | [] => outline
  | frame :: outer => plug (frame.add outline).close outer

/-- Closing started nodes leaves every row as it is. -/
theorem rows_plug (outline : Outline) (frames : List Frame) :
    (plug outline frames).rows 0 none =
      linkedRows frames ++ outline.rows (total frames) (innermost? frames) := by
  induction frames generalizing outline with
  | nil => rfl
  | cons frame outer ih =>
    rw [plug, ih, linkedRows_append_rows_add]
    rfl

/-- The outermost started node has the number of the root. -/
theorem eq_zero_of_mem_getLast?_ids (frames : List Frame) :
    ∀ id ∈ (ids frames).getLast?, id = 0 := by
  induction frames with
  | nil => simp [ids]
  | cons frame outer ih =>
    cases outer with
    | nil => simp [ids, total]
    | cons second others =>
      simp only [ids] at ih ⊢
      rw [List.getLast?_cons_cons]
      exact ih

end Frame

/-- Whether a table has one number as the parent of another. -/
def Node.Below (table : Array Node) (below above : Nat) : Prop :=
  ∃ node, table[below]? = some node ∧ node.parent = some above

namespace Frame

variable {table : Array Node}

/-- A node whose parent is the innermost started node continues the chain of started nodes. -/
theorem isChain_cons_ids {outer : List Frame} {id : Nat} {node : Node} (hnode : table[id]? = some node)
    (hparent : node.parent = innermost? outer) (hchain : (ids outer).IsChain (Node.Below table)) :
    (id :: ids outer).IsChain (Node.Below table) := by
  cases outer with
  | nil => exact List.IsChain.singleton id
  | cons frame others => exact List.IsChain.cons_cons ⟨node, hnode, hparent⟩ hchain

/-- Started nodes with rows at the front of a table are a chain of parents. -/
theorem isChain_ids (frames : List Frame) (rest : List Node)
    (h : table.toList = linkedRows frames ++ rest) : (ids frames).IsChain (Node.Below table) := by
  induction frames generalizing rest with
  | nil => exact List.IsChain.nil
  | cons frame outer ih =>
    rw [linkedRows, List.append_assoc, List.cons_append] at h
    have hnode : table[total outer]? = some (frame.label.row (innermost? outer)
        (Outline.rootIds (total outer + 1) frame.finished ++ [total (frame :: outer)])) := by
      rw [← Array.getElem?_toList, h, ← length_linkedRows outer]
      simp
    exact isChain_cons_ids hnode rfl (ih _ h)

end Frame

namespace Draft

/-- The outline that a draft has once all of its started nodes are closed. -/
def closed? : Draft → Option Outline
  | .blank => none
  | .growing inner outer => some (Frame.plug inner.close outer)
  | .whole outline => some outline

/-- The rows of a draft are those of its outline. -/
theorem rows_of_closed? {draft : Draft} {outline : Outline} (h : draft.closed? = some outline) :
    draft.rows = outline.rows 0 none := by
  cases draft with
  | blank => cases h
  | growing inner outer =>
    cases h
    rw [rows, Frame.rows_plug]
  | whole outline => cases h; rfl

/-- A draft with a row in its table has an outline that fills the table. -/
theorem exists_fills {draft : Draft} {id : Nat} {node : Node}
    (hnode : draft.rows.toArray[id]? = some node) : ∃ outline : Outline, outline.Fills draft.rows.toArray := by
  cases hclosed : draft.closed? with
  | none =>
    cases draft with
    | blank => cases hnode
    | growing inner outer => cases hclosed
    | whole outline => cases hclosed
  | some outline =>
    rw [rows_of_closed? hclosed]
    exact ⟨outline, outline.fills_rows⟩

/-- The started nodes of a draft are a chain of parents. -/
theorem isChain_started (draft : Draft) : draft.started.IsChain (Node.Below draft.rows.toArray) := by
  cases draft with
  | blank => exact List.IsChain.nil
  | whole outline => exact List.IsChain.nil
  | growing inner outer =>
    have hnode := getElem?_rows_growing inner outer
    rw [← List.getElem?_toArray] at hnode
    exact Frame.isChain_cons_ids hnode rfl (Frame.isChain_ids outer _ rfl)

/-- The outermost started node of a draft is its root. -/
theorem root?_of_mem_getLast? (draft : Draft) : ∀ id ∈ draft.started.getLast?, draft.root? = some id := by
  intro id hid
  cases draft with
  | blank => cases hid
  | whole outline => cases hid
  | growing inner outer =>
    rw [Frame.eq_zero_of_mem_getLast?_ids (inner :: outer) id hid]
    rfl

/-- A draft has a root exactly when its table has a row. -/
theorem root?_eq_ite (draft : Draft) : draft.root? = if draft.rows = [] then none else some 0 := by
  cases draft with
  | blank => rfl
  | growing inner outer =>
    have hlength := length_rows_growing inner outer
    rw [Frame.total] at hlength
    rw [if_neg (List.ne_nil_of_length_pos (by omega))]
    rfl
  | whole outline =>
    have hpos := outline.size_pos
    rw [← outline.length_rows 0 none] at hpos
    exact (if_neg (List.ne_nil_of_length_pos hpos)).symm

end Draft

namespace Builder

/-- Whether no row of a builder's table has an inverted range. -/
def RangesOrdered (builder : Builder) : Prop :=
  ∀ node ∈ builder.nodes, node.range.start ≤ node.range.stop

/-- Changing a row keeps the ranges in order if the change leaves no range inverted. -/
theorem RangesOrdered.modify {builder : Builder} (h : builder.RangesOrdered) (id : Nat)
    (started : List Nat) (change : Node → Node)
    (hchange : ∀ node : Node, node.range.start ≤ node.range.stop →
      (change node).range.start ≤ (change node).range.stop) :
    { builder with nodes := builder.nodes.modify id change, started }.RangesOrdered := by
  intro node hnode
  obtain ⟨index, hindex⟩ := Array.mem_iff_getElem?.mp hnode
  rw [Array.getElem?_modify] at hindex
  split at hindex
  · obtain ⟨old, hold, rfl⟩ := Option.map_eq_some_iff.mp hindex
    exact hchange old (h old (Array.mem_of_getElem? hold))
  · exact h node (Array.mem_of_getElem? hindex)

/-- Adding a row whose range is in order keeps the ranges in order. -/
theorem RangesOrdered.push {builder : Builder} (h : builder.RangesOrdered) (kind : Kind) (range : Range)
    (synthetic : Bool) (hrange : range.start ≤ range.stop) :
    (builder.push kind range synthetic).2.RangesOrdered := by
  rw [Builder.push]
  split
  · exact h
  · intro node hnode
    rcases Array.mem_push.mp hnode with hold | rfl
    · exact h node hold
    · exact hrange
  · intro node hnode
    rcases Array.mem_push.mp hnode with hold | rfl
    · exact h.modify _ builder.started
        (fun above => { above with children := above.children ++ [builder.nodes.size] })
        (fun _ habove => habove) node hold
    · exact hrange

/-- Starting a node keeps the ranges in order. -/
theorem RangesOrdered.startNode {builder : Builder} (h : builder.RangesOrdered) (kind : Kind)
    (start : Nat) : (builder.startNode kind start).2.RangesOrdered := by
  have hpush := h.push kind (Range.point start) false (Nat.le_refl start)
  rw [Builder.startNode]
  split
  · next id pushed heq =>
    rw [heq] at hpush
    exact hpush
  · exact hpush

/-- Adding a token keeps the ranges in order. -/
theorem RangesOrdered.token {builder : Builder} (h : builder.RangesOrdered) (kind : Kind)
    (start stop : Nat) : (builder.token kind start stop).2.RangesOrdered := by
  rw [Builder.token]
  split
  · next range heq =>
    obtain ⟨hle, rfl⟩ := (Range.ofBounds_eq_ok_iff start stop range).mp heq
    exact h.push kind _ false hle
  · exact h

/-- Closing a node keeps the ranges in order, also where its end is refused. -/
theorem RangesOrdered.finishNode {builder : Builder} (h : builder.RangesOrdered) (stop : Nat) :
    (builder.finishNode stop).2.RangesOrdered := by
  rw [Builder.finishNode]
  split
  · exact h
  · dsimp only
    split
    · exact h
    · next range heq =>
      obtain ⟨hle, rfl⟩ := (Range.ofBounds_eq_ok_iff _ stop range).mp heq
      exact h.modify _ _ (fun node => { node with range := ⟨_, stop⟩ }) (fun _ _ => hle)

/-- Every call keeps the ranges in order. -/
theorem RangesOrdered.perform {builder : Builder} (h : builder.RangesOrdered) (call : BuilderCall) :
    (builder.perform call).2.RangesOrdered := by
  cases call with
  | startNode kind start => exact h.startNode kind start
  | token kind start stop => exact h.token kind start stop
  | synthetic kind offset => exact h.push kind (Range.point offset) true (Nat.le_refl offset)
  | finishNode stop => exact h.finishNode stop
  | markSynthetic id =>
    exact h.modify id builder.started (fun node => { node with synthetic := true }) fun _ hnode => hnode
  | markSealed id =>
    exact h.modify id builder.started (fun node => { node with sealed := true }) fun _ hnode => hnode

/-- Every session keeps the ranges in order. -/
theorem RangesOrdered.session {builder : Builder} (h : builder.RangesOrdered)
    (calls : List BuilderCall) : (builder.session calls).RangesOrdered := by
  induction calls generalizing builder with
  | nil => exact h
  | cons call rest ih => exact ih (h.perform call)

/-- Calls that are carried out keep the ranges in order. -/
theorem RangesOrdered.run {builder after : Builder} (h : builder.RangesOrdered)
    {calls : List BuilderCall} (hrun : builder.run calls = .ok after) : after.RangesOrdered := by
  induction calls generalizing builder with
  | nil =>
    cases hrun
    exact h
  | cons call rest ih =>
    have hnext := h.perform call
    rw [Builder.run] at hrun
    split at hrun
    · next answer reached heq =>
      rw [heq] at hnext
      exact ih hnext hrun
    · contradiction

/-- A new builder has no ranges. -/
theorem rangesOrdered_new (source : Source) : (Builder.new source).RangesOrdered := by
  intro node hnode
  simp [Builder.new] at hnode

/-- What holds of a builder's table, started nodes and root, however it was used. -/
structure WellLinked (builder : Builder) : Prop where
  /-- The root has number 0 and is there as soon as there is a node. -/
  root_eq : builder.root = if builder.nodes = #[] then none else some 0
  /-- The root has no parent. -/
  root_parent : ∀ node, builder.nodes[0]? = some node → node.parent = none
  /-- Every other node has a parent with a smaller number. -/
  parent_lt : ∀ id node, builder.nodes[id]? = some node → id ≠ 0 →
    ∃ above < id, node.parent = some above
  /-- A node lists exactly the nodes whose parent it is. -/
  mem_children_iff : ∀ parent above, builder.nodes[parent]? = some above →
    ∀ child, child ∈ above.children ↔ Node.Below builder.nodes child parent
  /-- No node lists another twice. -/
  children_nodup : ∀ node ∈ builder.nodes, node.children.Nodup
  /-- Children are listed in the order of their numbers. -/
  children_ascending : ∀ node ∈ builder.nodes, node.children.Pairwise (· < ·)
  /-- The outermost started node is the root. -/
  outermost_eq : ∀ id ∈ builder.started.getLast?, builder.root = some id
  /-- Each started node, from the innermost outwards, has the next one as its parent. -/
  started_chain : builder.started.IsChain (Node.Below builder.nodes)
  /-- No range is inverted. -/
  ranges_ordered : builder.RangesOrdered

/-- The builder of a draft whose ranges are in order is well linked. -/
theorem wellLinked_builder (source : Source) (draft : Draft)
    (hranges : (draft.builder source).RangesOrdered) : (draft.builder source).WellLinked where
  root_eq := by
    change draft.root? = if draft.rows.toArray = #[] then none else some 0
    rw [draft.root?_eq_ite]
    simp
  root_parent := by
    intro node hnode
    obtain ⟨outline, hfills⟩ := Draft.exists_fills hnode
    obtain ⟨-, -, ⟨-, hnone⟩ | ⟨number, -, hlt, -⟩⟩ := hfills.locate hnode
    · exact hnone
    · omega
  parent_lt := by
    intro id node hnode hid
    obtain ⟨outline, hfills⟩ := Draft.exists_fills hnode
    obtain ⟨-, -, ⟨hzero, -⟩ | ⟨number, -, hlt, hparent, -⟩⟩ := hfills.locate hnode
    · contradiction
    · exact ⟨number, hlt, hparent⟩
  mem_children_iff := by
    intro parent above habove child
    obtain ⟨outline, hfills⟩ := Draft.exists_fills habove
    exact hfills.mem_children_iff habove
  children_nodup := by
    intro node hnode
    obtain ⟨id, hid⟩ := Array.mem_iff_getElem?.mp hnode
    obtain ⟨outline, hfills⟩ := Draft.exists_fills hid
    exact (hfills.children_ascending hid).imp Nat.ne_of_lt
  children_ascending := by
    intro node hnode
    obtain ⟨id, hid⟩ := Array.mem_iff_getElem?.mp hnode
    obtain ⟨outline, hfills⟩ := Draft.exists_fills hid
    exact hfills.children_ascending hid
  outermost_eq := draft.root?_of_mem_getLast?
  started_chain := draft.isChain_started
  ranges_ordered := hranges

end Builder

/-- The stored tree of an outline is walked in the order of its numbers. -/
theorem Outline.walkWithin_tree (source : Source) (outline : Outline) (depth : Nat)
    (hdepth : (outline.tree source).size ≤ depth) :
    (outline.tree source).walkWithin depth (outline.tree source).root =
      List.range (outline.tree source).size := by
  have hfills : outline.Fills (outline.tree source).nodes := outline.fills_rows
  have hsize : (outline.tree source).size = outline.size := hfills.size_eq
  rw [hsize] at hdepth ⊢
  rw [List.range_eq_range']
  exact walkWithin_of_stored _ outline 0 depth none hfills.stored hdepth

/-- A builder is well linked after every session, misused calls included, and a tree that is finished
then is walked in the order of its numbers. -/
theorem Builder.wellLinked_session (source : Source) (calls : List BuilderCall) :
    ((Builder.new source).session calls).WellLinked ∧
      ∀ tree, ((Builder.new source).session calls).finish = .ok tree →
        ∀ depth, tree.size ≤ depth → tree.walkWithin depth tree.root = List.range tree.size := by
  have hranges := (rangesOrdered_new source).session calls
  rw [← Draft.builder_blank, Draft.session_builder] at hranges ⊢
  refine ⟨wellLinked_builder source _ hranges, ?_⟩
  intro tree hfinish depth hdepth
  rw [Draft.finish_builder] at hfinish
  cases hwhole : Draft.blank.session calls with
  | blank => rw [hwhole] at hfinish; cases hfinish
  | growing inner outer => rw [hwhole] at hfinish; cases hfinish
  | whole outline =>
    rw [hwhole] at hfinish
    cases hfinish
    exact Outline.walkWithin_tree source outline depth hdepth

/-- A session in which a token, an end and a second root are refused and the tree is finished all the
same. -/
theorem Builder.wellLinked_session_refused :
    let calls : List BuilderCall :=
      [.finishNode 3, .startNode .block 2, .startNode .syntaxList 4, .token .identifier 5 4,
        .token .identifier 4 5, .finishNode 1, .synthetic .identifier 6, .markSealed 1, .finishNode 9,
        .token .identifier 0 1]
    let builder := (Builder.new ⟨"a.ts", ""⟩).session calls
    builder.WellLinked ∧ ∃ tree, builder.finish = .ok tree ∧ tree.size = 4 ∧
      tree.walkWithin 4 tree.root = [0, 1, 2, 3] := by
  intro calls builder
  obtain ⟨hlinked, hwalk⟩ := Builder.wellLinked_session ⟨"a.ts", ""⟩ calls
  obtain ⟨tree, hfinish, hsize⟩ : ∃ tree, builder.finish = .ok tree ∧ tree.size = 4 := ⟨_, rfl, rfl⟩
  refine ⟨hlinked, tree, hfinish, hsize, ?_⟩
  rw [hwalk tree hfinish 4 (Nat.le_of_eq hsize), hsize]
  rfl

end Synopsis
