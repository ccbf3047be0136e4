import Mathlib.Data.List.Induction
import Synopsis.Proofs.Tree.Laminar

/-!
# Paths name nodes

A path goes down from the root by child indices and does not pass through sealed nodes. In a finished
tree every node is listed once, by its parent. So a node has at most one path, and it has one exactly
when no node above it is sealed. Paths in a row are followed one after the other.
-/

namespace Synopsis

namespace Tree

/-- Whether a tree has a sealed node with a number. -/
def IsSealed (tree : Tree) (id : Nat) : Prop :=
  ∃ node, tree.nodes[id]? = some node ∧ node.sealed = true

/-- A node is sealed if its row says so. -/
theorem isSealed_iff {tree : Tree} {id : Nat} {node : Node} (hnode : tree.nodes[id]? = some node) :
    tree.IsSealed id ↔ node.sealed = true := by
  simp [IsSealed, hnode]

/-- The child of a node with an index, if the node lists its children. -/
def child? (tree : Tree) (id index : Nat) : Option Nat :=
  tree.nodes[id]?.bind fun node => if node.sealed then none else node.children[index]?

/-- A child is found where its node is not sealed and has it at the index. -/
theorem child?_eq_some_iff (tree : Tree) (id index child : Nat) :
    tree.child? id index = some child ↔
      ∃ node, tree.nodes[id]? = some node ∧ node.sealed = false ∧ node.children[index]? = some child := by
  rw [child?, Option.bind_eq_some_iff]
  refine exists_congr fun node => and_congr_right fun _ => ?_
  cases node.sealed <;> simp

/-- A path goes to a child and on from there. -/
theorem descend?_cons (tree : Tree) (id index : Nat) (path : List Nat) :
    tree.descend? id (index :: path) = (tree.child? id index).bind (tree.descend? · path) := by
  rw [descend?, child?]
  cases tree.nodes[id]? with
  | none => rfl
  | some node => cases hsealed : node.sealed <;> simp [hsealed]

/-- Paths in a row are followed one after the other. -/
theorem descend?_append (tree : Tree) (id : Nat) (first second : List Nat) :
    tree.descend? id (first ++ second) =
      (tree.descend? id first).bind fun reached => tree.descend? reached second := by
  induction first generalizing id with
  | nil => rfl
  | cons index first ih =>
    rw [List.cons_append, descend?_cons, descend?_cons, Option.bind_assoc]
    simp only [ih]

/-- A path that ends in an index reaches a child of what it reaches without the index. -/
theorem at?_concat_eq_some_iff (tree : Tree) (path : List Nat) (index id : Nat) :
    tree.at? (path ++ [index]) = some id ↔
      ∃ above, tree.at? path = some above ∧ tree.child? above index = some id := by
  rw [at?, descend?_append, Option.bind_eq_some_iff]
  refine exists_congr fun above => and_congr_right fun _ => ?_
  rw [descend?_cons, Option.bind_eq_some_iff]
  simp [descend?]

end Tree

namespace Outline.Fills

variable {tree : Tree} {outline : Outline}

/-- The child with an index is below its node. -/
theorem below_of_child? (h : outline.Fills tree.nodes) {id index child : Nat}
    (hchild : tree.child? id index = some child) :
    Node.Below tree.nodes child id ∧ ¬ tree.IsSealed id := by
  obtain ⟨node, hnode, hopen, hlisted⟩ := (tree.child?_eq_some_iff id index child).mp hchild
  refine ⟨(h.mem_children_iff hnode).mp (List.mem_of_getElem? hlisted), ?_⟩
  rw [Tree.isSealed_iff hnode, hopen]
  exact Bool.false_ne_true

/-- A node below one that is not sealed is its child with some index. -/
theorem exists_child? (h : outline.Fills tree.nodes) {id child : Nat}
    (hbelow : Node.Below tree.nodes child id) (hopen : ¬ tree.IsSealed id) :
    ∃ index, tree.child? id index = some child := by
  obtain ⟨below, hchild, hparent⟩ := hbelow
  obtain ⟨-, -, ⟨-, hnone⟩ | ⟨number, row, -, hnumber, hrow, hlisted⟩⟩ := h.locate hchild
  · rw [hparent] at hnone
    cases hnone
  · rw [hparent, Option.some.injEq] at hnumber
    subst number
    obtain ⟨index, hindex⟩ := List.mem_iff_getElem?.mp hlisted
    rw [Tree.isSealed_iff hrow, Bool.not_eq_true] at hopen
    exact ⟨index, (tree.child?_eq_some_iff id index child).mpr ⟨row, hrow, hopen, hindex⟩⟩

/-- A node is the child of one node only, with one index. -/
theorem child?_unique (h : outline.Fills tree.nodes) {first second index other child : Nat}
    (hfirst : tree.child? first index = some child) (hsecond : tree.child? second other = some child) :
    first = second ∧ index = other := by
  obtain rfl := (h.below_of_child? hfirst).1.unique (h.below_of_child? hsecond).1
  obtain ⟨node, hnode, -, hindex⟩ := (tree.child?_eq_some_iff _ _ _).mp hfirst
  obtain ⟨node', hnode', -, hother⟩ := (tree.child?_eq_some_iff _ _ _).mp hsecond
  rw [hnode, Option.some.injEq] at hnode'
  subst node'
  have hnodup : node.children.Nodup := (h.children_ascending hnode).imp Nat.ne_of_lt
  obtain ⟨hlt, -⟩ := List.getElem?_eq_some_iff.mp hindex
  exact ⟨rfl, (List.getElem?_inj hlt hnodup).mp (hindex.trans hother.symm)⟩

/-- The root is below no node. -/
theorem not_below_root (h : outline.Fills tree.nodes) (above : Nat) :
    ¬ Node.Below tree.nodes 0 above :=
  fun hbelow => Nat.not_lt_zero _ (h.lt_of_below hbelow)

/-- Two paths to the same node are the same. -/
theorem at?_injective (h : outline.Fills tree.nodes) (hroot : tree.root = 0) {first second : List Nat}
    {id : Nat} (hfirst : tree.at? first = some id) (hsecond : tree.at? second = some id) :
    first = second := by
  induction first using List.reverseRecOn generalizing second id with
  | nil =>
    cases hfirst
    cases second using List.reverseRecOn with
    | nil => rfl
    | append_singleton second index =>
      obtain ⟨above, -, hchild⟩ := (tree.at?_concat_eq_some_iff second index _).mp hsecond
      rw [hroot] at hchild
      exact absurd (h.below_of_child? hchild).1 (h.not_below_root above)
  | append_singleton first index ih =>
    obtain ⟨above, habove, hchild⟩ := (tree.at?_concat_eq_some_iff first index id).mp hfirst
    cases second using List.reverseRecOn with
    | nil =>
      cases hsecond
      rw [hroot] at hchild
      exact absurd (h.below_of_child? hchild).1 (h.not_below_root above)
    | append_singleton second other =>
      obtain ⟨above', habove', hchild'⟩ := (tree.at?_concat_eq_some_iff second other id).mp hsecond
      obtain ⟨rfl, rfl⟩ := h.child?_unique hchild hchild'
      rw [ih habove habove']

/-- A path passes no sealed node on its way down. -/
theorem not_isSealed_of_at? (h : outline.Fills tree.nodes) (hroot : tree.root = 0) {path : List Nat}
    {id upper : Nat} (hpath : tree.at? path = some id) (hupper : Node.Ancestor tree.nodes upper id) :
    ¬ tree.IsSealed upper := by
  induction path using List.reverseRecOn generalizing id with
  | nil =>
    cases hpath
    rw [hroot] at hupper
    exact absurd (h.lt_of_ancestor hupper) (Nat.not_lt_zero _)
  | append_singleton path index ih =>
    obtain ⟨above, habove, hchild⟩ := (tree.at?_concat_eq_some_iff path index id).mp hpath
    obtain ⟨hbelow, hopen⟩ := h.below_of_child? hchild
    obtain ⟨parent, hlink, hrest⟩ := Relation.TransGen.head'_iff.mp hupper
    obtain rfl := hlink.unique hbelow
    rcases Relation.reflTransGen_iff_eq_or_transGen.mp hrest with rfl | hhigher
    · exact hopen
    · exact ih habove hhigher

/-- A node that no sealed node stands above has a path. -/
theorem exists_at? (h : outline.Fills tree.nodes) (hroot : tree.root = 0) (id : Nat)
    (hid : id < tree.size) (hopen : ∀ upper, Node.Ancestor tree.nodes upper id → ¬ tree.IsSealed upper) :
    ∃ path, tree.at? path = some id := by
  -- The parent has a smaller number, and what stands above it stands above the node.
  induction id using Nat.strong_induction_on with
  | _ id ih =>
    obtain ⟨-, -, ⟨rfl, -⟩ | ⟨above, row, hlt, hparent, hrow, -⟩⟩ :=
      h.locate (Array.getElem?_eq_getElem hid)
    · exact ⟨[], congrArg some hroot⟩
    · have hbelow : Node.Below tree.nodes id above := ⟨_, Array.getElem?_eq_getElem hid, hparent⟩
      obtain ⟨path, hpath⟩ := ih above hlt (Nat.lt_trans hlt hid)
        fun upper hupper => hopen upper (Relation.TransGen.head hbelow hupper)
      obtain ⟨index, hchild⟩ := h.exists_child? hbelow (hopen above (Relation.TransGen.single hbelow))
      exact ⟨path ++ [index], (tree.at?_concat_eq_some_iff path index id).mpr ⟨above, hpath, hchild⟩⟩

/-- A path reaches a node of the table. -/
theorem lt_size_of_at? (h : outline.Fills tree.nodes) (hroot : tree.root = 0) {path : List Nat}
    {id : Nat} (hpath : tree.at? path = some id) : id < tree.size := by
  cases path using List.reverseRecOn with
  | nil =>
    cases hpath
    rw [hroot, Tree.size, h.size_eq]
    exact outline.size_pos
  | append_singleton path index =>
    obtain ⟨above, -, hchild⟩ := (tree.at?_concat_eq_some_iff path index id).mp hpath
    obtain ⟨⟨node, hnode, -⟩, -⟩ := h.below_of_child? hchild
    exact (Array.getElem?_eq_some_iff.mp hnode).1

end Outline.Fills

/-- A finished tree is filled with an outline from its root on. -/
theorem Builder.exists_fills_of_session {source : Source} {calls : List BuilderCall} {tree : Tree}
    (h : ((Builder.new source).session calls).finish = .ok tree) :
    tree.root = 0 ∧ ∃ outline : Outline, outline.Fills tree.nodes := by
  obtain ⟨outline, rfl⟩ := Draft.exists_tree_of_session h
  exact ⟨rfl, outline, outline.fills_rows⟩

/-- In a tree that is finished after any session, a node has exactly one path from the root if no node
above it is sealed, and none if there is a sealed one; paths reach no other nodes. From every node, two
paths in a row lead where the second leads from where the first does. -/
theorem Builder.path_of_node_unique {source : Source} {calls : List BuilderCall} {tree : Tree}
    (h : ((Builder.new source).session calls).finish = .ok tree) :
    (∀ id < tree.size, (∀ upper, Node.Ancestor tree.nodes upper id → ¬ tree.IsSealed upper) →
        ∃! path, tree.at? path = some id) ∧
      (∀ id < tree.size, (∃ upper, Node.Ancestor tree.nodes upper id ∧ tree.IsSealed upper) →
        ∀ path, tree.at? path ≠ some id) ∧
      (∀ path id, tree.at? path = some id → id < tree.size) ∧
      ∀ id first second, tree.descend? id (first ++ second) =
        (tree.descend? id first).bind fun reached => tree.descend? reached second := by
  obtain ⟨hroot, outline, hfills⟩ := Builder.exists_fills_of_session h
  refine ⟨?_, ?_, fun path id => hfills.lt_size_of_at? hroot, tree.descend?_append⟩
  · intro id hid hopen
    obtain ⟨path, hpath⟩ := hfills.exists_at? hroot id hid hopen
    exact ⟨path, hpath, fun other hother => hfills.at?_injective hroot hother hpath⟩
  · rintro id - ⟨upper, hupper, hsealed⟩ path hpath
    exact hfills.not_isSealed_of_at? hroot hpath hupper hsealed

/-- The calls for a block with a list of one name, sealed while it is started, and a name behind the list.
They go on after a misuse. -/
def sealedListCalls : List BuilderCall :=
  [.finishNode 1, .startNode .block 0, .startNode .syntaxList 0, .markSealed 1, .token .identifier 0 1,
    .finishNode 1, .token .identifier 1 2, .finishNode 2]

/-- The outline of a block with a sealed list. -/
def sealedListOutline : Outline :=
  .node ⟨.block, ⟨0, 2⟩, false, false⟩
    [.node ⟨.syntaxList, ⟨0, 1⟩, false, true⟩ [.node ⟨.identifier, ⟨0, 1⟩, false, false⟩ []],
      .node ⟨.identifier, ⟨1, 2⟩, false, false⟩ []]

/-- The calls build the outline. -/
theorem finish_sealedListCalls (source : Source) :
    ((Builder.new source).session sealedListCalls).finish = .ok (sealedListOutline.tree source) := by
  rw [← Draft.builder_blank, Draft.session_builder, Draft.finish_builder]
  rfl

/-- The name behind the sealed list has one path and the name in the list has none. -/
theorem Builder.path_of_node_behind_sealed :
    let tree := sealedListOutline.tree ⟨"a.ts", "ab"⟩
    ((Builder.new ⟨"a.ts", "ab"⟩).session sealedListCalls).finish = .ok tree ∧
      (∃! path, tree.at? path = some 3) ∧ tree.at? [1] = some 3 ∧ tree.IsSealed 1 ∧
      ∀ path, tree.at? path ≠ some 2 := by
  intro tree
  have hfinish := finish_sealedListCalls ⟨"a.ts", "ab"⟩
  obtain ⟨hunique, hnone, -⟩ := Builder.path_of_node_unique hfinish
  have hpath : tree.at? [1] = some 3 := rfl
  have hopen (upper : Nat) (hupper : Node.Ancestor tree.nodes upper 3) : ¬ tree.IsSealed upper :=
    sealedListOutline.fills_rows.not_isSealed_of_at? rfl hpath hupper
  have hsealed : tree.IsSealed 1 := ⟨_, rfl, rfl⟩
  have hbelow : Node.Below tree.nodes 2 1 := ⟨_, rfl, rfl⟩
  exact ⟨hfinish, hunique 3 (by decide) hopen, hpath, hsealed,
    hnone 2 (by decide) ⟨1, Relation.TransGen.single hbelow, hsealed⟩⟩

end Synopsis
