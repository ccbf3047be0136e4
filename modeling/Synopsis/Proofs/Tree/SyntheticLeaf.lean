import Synopsis.Proofs.Span.Leaf
import Synopsis.Proofs.Tree.Links
import Synopsis.Proofs.Tree.Session

/-!
# Synthetic leaves

A node without source text has a range all the same, and composition reads the range. A leaf that is
added as synthetic has an empty range, and no later call gives it another, so it is mute. A leaf that is
marked as synthetic afterwards keeps the range that it had: as long as no span above it is modified, it
writes the slice of that range, and skipping it takes the slice out of the text.

Spans are found by the numbers of nodes: the span tree of a finished tree is numbered as its table is.
-/

namespace Synopsis

namespace Outline

open SpanTree

mutual

/-- The span tree of an outline has one span for each node. -/
theorem size_ofHost_host (source : Source) (outline : Outline) :
    (ofHost (outline.host source)).size = outline.size := by
  cases outline with
  | node label children =>
    rw [host, ofHost, SpanTree.size, size, sizeAll_ofHosts_hosts source children]

/-- The span trees of a list of outlines have one span for each node. -/
theorem sizeAll_ofHosts_hosts (source : Source) (outlines : List Outline) :
    SpanTree.sizeAll (ofHosts (hosts source outlines)) = sizeAll outlines := by
  cases outlines with
  | nil => rfl
  | cons outline rest =>
    rw [hosts, ofHosts, SpanTree.sizeAll, sizeAll, size_ofHost_host source outline,
      sizeAll_ofHosts_hosts source rest]

end

variable {tree : Tree}

mutual

/-- A span of a stored outline stands for the node with the span's number. -/
theorem host?_of_mem_spansFrom (outline : Outline) (id : Nat) (parent above : Option Nat)
    (hstored : outline.Stored tree.nodes id parent) (span : Span)
    (hspan : span ∈ (ofHost (outline.host tree.source)).spansFrom id above) :
    tree.host? span.id = some span.node := by
  cases outline with
  | node label children =>
    have hsize := Nat.le_trans (Nat.le_add_left _ _) hstored.add_size_le
    have hroot := hostWithin_of_stored tree _ id tree.size parent hstored hsize
    rw [host, ofHost, spansFrom, List.mem_cons, ← host] at hspan
    rcases hspan with rfl | hbelow
    · exact hroot
    · exact host?_of_mem_spansFromAll children (id + 1) id id hstored.children span hbelow

/-- A span of consecutive stored outlines stands for the node with the span's number. -/
theorem host?_of_mem_spansFromAll (outlines : List Outline) (next parent above : Nat)
    (hstored : StoredAll tree.nodes next parent outlines) (span : Span)
    (hspan : span ∈ spansFromAll next above (ofHosts (hosts tree.source outlines))) :
    tree.host? span.id = some span.node := by
  cases outlines with
  | nil => cases hspan
  | cons outline rest =>
    obtain ⟨hfirst, hrest⟩ := hstored
    rw [hosts, ofHosts, spansFromAll, List.mem_append, size_ofHost_host] at hspan
    rcases hspan with hspan | hspan
    · exact host?_of_mem_spansFrom outline next (some parent) (some above) hfirst span hspan
    · exact host?_of_mem_spansFromAll rest (next + outline.size) parent above hrest span hspan

end

end Outline

namespace Node

/-- The text in the place of a node's range, whether or not the node has source text. -/
def slice (source : Source) (node : Node) : String :=
  Text.sliceOrEmpty source.text node.range.start node.range.stop

/-- The host of a node without children. -/
def leafHost (source : Source) (node : Node) : Host :=
  .node node.kind.ordinal node.range (node.text source) node.withheld []

end Node

/-- A node without children is the host of a leaf. -/
theorem Tree.host?_of_leaf {tree : Tree} {id : Nat} {node : Node} (hnode : tree.nodes[id]? = some node)
    (hleaf : node.children = []) : tree.host? id = some (node.leafHost tree.source) := by
  obtain ⟨hid, -⟩ := Array.getElem?_eq_some_iff.mp hnode
  obtain ⟨depth, hdepth⟩ : ∃ depth, tree.size = depth + 1 := ⟨tree.size - 1, by rw [Tree.size]; omega⟩
  rw [Tree.host?, hdepth, Tree.hostWithin, hnode]
  change some (Host.node _ _ _ _ (node.children.filterMap (tree.hostWithin depth))) = _
  rw [hleaf, List.filterMap_nil, Node.leafHost]

/-- The host of a stored tree is that of its outline. -/
theorem Outline.host?_tree (source : Source) (outline : Outline) :
    (outline.tree source).host? (outline.tree source).root = some (outline.host source) :=
  hostWithin_of_stored (outline.tree source) outline 0 _ none outline.fills_rows.stored
    (Nat.le_of_eq outline.fills_rows.size_eq.symm)

/-- A node without children is a leaf of the spans of a stored tree, with the node's number. -/
theorem Outline.hasLeaf_tree {source : Source} {outline : Outline} {spans : SpanTree} {host : Host}
    (hhost : (outline.tree source).host? (outline.tree source).root = some host)
    (hbuild : SpanTree.build host = .ok spans) {id : Nat} {node : Node}
    (hnode : (outline.tree source).nodes[id]? = some node) (hleaf : node.children = []) :
    spans.HasLeaf id (node.leafHost source) := by
  have hfills : outline.Fills (outline.tree source).nodes := outline.fills_rows
  obtain rfl : outline.host source = host := Option.some.inj ((host?_tree source outline).symm.trans hhost)
  obtain ⟨-, rfl⟩ := (SpanTree.build_eq_ok_iff _ _).mp hbuild
  have hid : id ∈ (SpanTree.ofHost (outline.host source)).spans.map (·.id) := by
    obtain ⟨hlt, -⟩ := Array.getElem?_eq_some_iff.mp hnode
    rw [SpanTree.map_id_spans, List.mem_range, size_ofHost_host, ← hfills.size_eq]
    exact hlt
  obtain ⟨span, hspan, rfl⟩ := List.mem_map.mp hid
  have hspanHost := host?_of_mem_spansFrom outline 0 none none hfills.stored span hspan
  rw [Tree.host?_of_leaf hnode hleaf, Option.some.injEq] at hspanHost
  change node.leafHost source = span.node at hspanHost
  rw [hspanHost]
  refine SpanTree.hasLeaf_of_mem_spans hbuild hspan ?_
  rw [← hspanHost]
  rfl

/-- The numbers of started nodes are below the number of nodes. -/
theorem Frame.lt_total_of_mem_ids {frames : List Frame} {id : Nat} (h : id ∈ ids frames) :
    id < total frames := by
  induction frames with
  | nil => cases h
  | cons frame outer ih =>
    rw [total]
    rcases List.mem_cons.mp h with rfl | houter
    · omega
    · have := ih houter
      omega

/-- Every started node of a draft has a row. -/
theorem Draft.lt_length_rows_of_mem_started {draft : Draft} {id : Nat} (h : id ∈ draft.started) :
    id < draft.rows.length := by
  cases draft with
  | blank => cases h
  | growing inner outer =>
    rw [length_rows_growing]
    exact Frame.lt_total_of_mem_ids h
  | whole outline => cases h

namespace Builder

/-- Every started node of a builder has a row, whatever calls have been made. -/
theorem lt_size_of_mem_started_session {source : Source} {calls : List BuilderCall} {id : Nat}
    (h : id ∈ ((Builder.new source).session calls).started) :
    id < ((Builder.new source).session calls).nodes.size := by
  rw [← Draft.builder_blank, Draft.session_builder] at h ⊢
  exact Draft.lt_length_rows_of_mem_started h

/-- Calls that follow others go on from the builder that these have reached. -/
theorem session_append (builder : Builder) (before after : List BuilderCall) :
    builder.session (before ++ after) = (builder.session before).session after := by
  induction before generalizing builder with
  | nil => rfl
  | cons call before ih => exact ih _

section Adding

variable {builder : Builder} {kind : Kind} {range : Range} {synthetic : Bool} {id : Nat}

/-- A new node is numbered by the rows before it. -/
theorem eq_size_of_push (h : (builder.push kind range synthetic).1 = .ok id) : id = builder.nodes.size := by
  rw [push] at h
  split at h
  · cases h
  · cases h; rfl
  · cases h; rfl

/-- A new node has the range that it is given. -/
theorem range_of_push (h : (builder.push kind range synthetic).1 = .ok id) :
    (builder.push kind range synthetic).2.nodes[id]?.map (·.range) = some range := by
  rw [eq_size_of_push h]
  rw [push] at h ⊢
  split at h
  · cases h
  · rw [Array.getElem?_push_size]; rfl
  · rw [Array.getElem?_push, if_pos (Array.size_modify ..).symm]; rfl

/-- Adding a node starts none. -/
theorem started_push (builder : Builder) (kind : Kind) (range : Range) (synthetic : Bool) :
    (builder.push kind range synthetic).2.started = builder.started := by
  rw [push]
  split <;> rfl

end Adding

/-- Whether the node with a number has a range that it will keep, being not started. -/
structure Settled (builder : Builder) (id : Nat) (range : Range) : Prop where
  range_eq : builder.nodes[id]?.map (·.range) = some range
  closed : id ∉ builder.started

namespace Settled

variable {builder : Builder} {id : Nat} {range : Range}

/-- A settled node has a row. -/
theorem lt_size (h : builder.Settled id range) : id < builder.nodes.size := by
  obtain ⟨node, hnode, -⟩ := Option.map_eq_some_iff.mp h.range_eq
  exact (Array.getElem?_eq_some_iff.mp hnode).1

/-- Changing a row keeps the range of a settled node if the row is another or its range stays. -/
theorem range_modify (h : builder.Settled id range) (index : Nat) (change : Node → Node)
    (hchange : index ≠ id ∨ ∀ node, (change node).range = node.range) :
    (builder.nodes.modify index change)[id]?.map (·.range) = some range := by
  rw [Array.getElem?_modify]
  split
  · next heq =>
    have hkeeps := hchange.resolve_left (absurd heq)
    rw [Option.map_map, ← h.range_eq]
    exact congrArg (fun read => Option.map read builder.nodes[id]?) (funext hkeeps)
  · exact h.range_eq

/-- Adding a node settles nothing anew. -/
theorem push (h : builder.Settled id range) (kind : Kind) (added : Range) (synthetic : Bool) :
    (builder.push kind added synthetic).2.Settled id range := by
  have hlt := h.lt_size
  rw [Builder.push]
  split
  · exact h
  · refine ⟨?_, h.closed⟩
    rw [Array.getElem?_push_lt hlt, ← Array.getElem?_eq_getElem hlt]
    exact h.range_eq
  · refine ⟨?_, h.closed⟩
    rw [Array.getElem?_push, if_neg (by rw [Array.size_modify]; omega)]
    exact h.range_modify _ (fun above => { above with children := above.children ++ [builder.nodes.size] })
      (Or.inr fun _ => rfl)

/-- Starting a node leaves settled nodes as they are. -/
theorem startNode (h : builder.Settled id range) (kind : Kind) (start : Nat) :
    (builder.startNode kind start).2.Settled id range := by
  have hlt := h.lt_size
  have hpush := h.push kind (Range.point start) false
  rw [Builder.startNode]
  split
  · next added pushed heq =>
    have hadded := eq_size_of_push (congrArg Prod.fst heq)
    rw [heq] at hpush
    refine ⟨hpush.range_eq, ?_⟩
    rw [List.mem_cons, not_or]
    exact ⟨by omega, hpush.closed⟩
  · exact hpush

/-- Adding a token leaves settled nodes as they are. -/
theorem token (h : builder.Settled id range) (kind : Kind) (start stop : Nat) :
    (builder.token kind start stop).2.Settled id range := by
  rw [Builder.token]
  split
  · exact h.push kind _ false
  · exact h

/-- Closing a node leaves settled nodes as they are. -/
theorem finishNode (h : builder.Settled id range) (stop : Nat) :
    (builder.finishNode stop).2.Settled id range := by
  rw [Builder.finishNode]
  split
  · exact h
  · next innermost outer hstarted =>
    have hclosed := h.closed
    rw [hstarted, List.mem_cons, not_or] at hclosed
    dsimp only
    split
    · exact ⟨h.range_eq, hclosed.2⟩
    · exact ⟨h.range_modify innermost _ (Or.inl (Ne.symm hclosed.1)), hclosed.2⟩

/-- No call changes the range of a settled node. -/
theorem perform (h : builder.Settled id range) (call : BuilderCall) :
    (builder.perform call).2.Settled id range := by
  cases call with
  | startNode kind start => exact h.startNode kind start
  | token kind start stop => exact h.token kind start stop
  | synthetic kind offset => exact h.push kind (Range.point offset) true
  | finishNode stop => exact h.finishNode stop
  | markSynthetic marked => exact ⟨h.range_modify marked _ (Or.inr fun _ => rfl), h.closed⟩
  | markSealed marked => exact ⟨h.range_modify marked _ (Or.inr fun _ => rfl), h.closed⟩

/-- No session changes the range of a settled node. -/
theorem session (h : builder.Settled id range) (calls : List BuilderCall) :
    (builder.session calls).Settled id range := by
  induction calls generalizing builder with
  | nil => exact h
  | cons call rest ih => exact ih (h.perform call)

end Settled

/-- A node that is added as synthetic is settled at once. -/
theorem settled_of_synthetic {source : Source} {calls : List BuilderCall} {kind : Kind} {offset id : Nat}
    (h : (((Builder.new source).session calls).perform (.synthetic kind offset)).1 = .ok (some id)) :
    (((Builder.new source).session calls).perform (.synthetic kind offset)).2.Settled id
      (Range.point offset) := by
  have hpush : (((Builder.new source).session calls).push kind (Range.point offset) true).1 = .ok id := by
    change (((Builder.new source).session calls).push kind (Range.point offset) true).1.map some = _ at h
    cases hanswer : (((Builder.new source).session calls).push kind (Range.point offset) true).1 with
    | error misuse => rw [hanswer] at h; cases h
    | ok added => rw [hanswer] at h; cases h; rfl
  refine ⟨range_of_push hpush, ?_⟩
  change id ∉ (((Builder.new source).session calls).push kind (Range.point offset) true).2.started
  rw [started_push, eq_size_of_push hpush]
  exact fun hmem => Nat.lt_irrefl _ (lt_size_of_mem_started_session hmem)

/-- Whether one of the calls of a session adds the node with a number as synthetic. -/
def AddsSynthetic (source : Source) (calls : List BuilderCall) (id : Nat) : Prop :=
  ∃ before kind offset after, calls = before ++ .synthetic kind offset :: after ∧
    (((Builder.new source).session before).perform (.synthetic kind offset)).1 = .ok (some id)

/-- A node that was added as synthetic has an empty range in the finished tree. -/
theorem slice_of_addsSynthetic {source : Source} {calls : List BuilderCall} {tree : Tree}
    (hfinish : ((Builder.new source).session calls).finish = .ok tree) {id : Nat} {node : Node}
    (hnode : tree.nodes[id]? = some node) (h : AddsSynthetic source calls id) :
    node.slice source = "" := by
  obtain ⟨before, kind, offset, after, rfl, hadded⟩ := h
  have hrange := ((settled_of_synthetic hadded).session after).range_eq
  rw [nodes_of_finish hfinish, session_append, session] at hnode
  rw [hnode, Option.map_some, Option.some.injEq] at hrange
  rw [Node.slice, hrange]
  exact Text.sliceOrEmpty_self source.text offset

/-- Take any tree that is finished after any session, misused calls included, whose spans can be built,
and any synthetic node of it without children. The node has no text. If the slice of its range is empty,
as it is if the node was added as synthetic, the node is mute. Otherwise, whatever the modifications of
the other spans are, skipping its children is keeping it, and skipping it changes nothing under a
modified span. Under unmodified spans skipping it takes its slice out of the composed text, and the
modified text is the same only if the slice is blank and, unless it is empty, does not keep two words
apart. -/
theorem synthetic_leaf_writes_slice (source : Source) (calls : List BuilderCall) (tree : Tree)
    (hfinish : ((Builder.new source).session calls).finish = .ok tree) (host : Host) (spans : SpanTree)
    (hhost : tree.host? tree.root = some host) (hbuild : SpanTree.build host = .ok spans) (id : Nat)
    (node : Node) (hnode : tree.nodes[id]? = some node) (hsynthetic : node.synthetic = true)
    (hleaf : node.children = []) :
    node.text source = .error .noSourceMapping ∧
      (AddsSynthetic source calls id → node.slice source = "") ∧
      (node.slice source = "" → spans.Mute source.text id) ∧
      ∀ marks : Nat → Modification,
        (spans.markedAt marks id .skipChildren).modifiedText source.text =
          (spans.markedAt marks id .keep).modifiedText source.text ∧
        ((∃ upper, spans.Ancestor upper id ∧ marks upper ≠ .keep) →
          (spans.markedAt marks id .keep).modifiedText source.text =
            (spans.markedAt marks id .skipAll).modifiedText source.text) ∧
        ((∀ upper, spans.Ancestor upper id → marks upper = .keep) →
          ∃ pre post,
            (spans.markedAt marks id .keep).compose source.text = pre ++ node.slice source ++ post ∧
            (spans.markedAt marks id .skipAll).compose source.text = pre ++ post ∧
            ((spans.markedAt marks id .keep).modifiedText source.text =
                (spans.markedAt marks id .skipAll).modifiedText source.text ↔
              (∀ c ∈ (node.slice source).toList, Text.isBlank c = true) ∧
                (node.slice source = "" ∨ ¬ Text.Joined pre.toList post.toList))) := by
  have hslice := slice_of_addsSynthetic hfinish hnode
  obtain ⟨outline, rfl⟩ := Draft.exists_tree_of_session hfinish
  have hspan := Outline.hasLeaf_tree hhost hbuild hnode hleaf
  refine ⟨by rw [Node.text, if_pos hsynthetic], hslice, hspan.mute source.text, fun marks => ⟨?_, ?_, ?_⟩⟩
  · exact congrArg Text.collapse (hspan.compose_congr source.text marks rfl)
  · intro hhidden
    exact congrArg Text.collapse (hspan.compose_of_hidden source.text hhidden _ _)
  · intro hshown
    obtain ⟨pre, post, hcompose⟩ := hspan.exists_compose_of_shown source.text hshown
    have hkept : (spans.markedAt marks id .keep).compose source.text = pre ++ node.slice source ++ post :=
      hcompose .keep
    have hskipped : (spans.markedAt marks id .skipAll).compose source.text = pre ++ post := by
      rw [hcompose, Modification.leafText, String.append_empty]
    refine ⟨pre, post, hkept, hskipped, ?_⟩
    rw [SpanTree.modifiedText, SpanTree.modifiedText, hkept, hskipped]
    exact Text.collapse_omit_iff pre (node.slice source) post

/-- A short declaration. -/
def declaration : Source := ⟨"a.ts", "let x = 1;"⟩

/-- The calls that build a declaration with two synthetic leaves, of which the second is its name and
marked at the end. -/
def declarationCalls : List BuilderCall :=
  [.startNode .variableStatement 0, .token .letKeyword 0 3, .synthetic .identifier 3,
    .token .identifier 4 5, .finishNode 10, .markSynthetic 3]

/-- The outline of a declaration with two synthetic leaves. -/
def declarationOutline : Outline :=
  .node ⟨.variableStatement, ⟨0, 10⟩, false, false⟩
    [.node ⟨.letKeyword, ⟨0, 3⟩, false, false⟩ [], .node ⟨.identifier, ⟨3, 3⟩, true, false⟩ [],
      .node ⟨.identifier, ⟨4, 5⟩, true, false⟩ []]

/-- The calls build the outline. -/
theorem finish_declarationCalls :
    ((Builder.new declaration).session declarationCalls).finish =
      .ok (declarationOutline.tree declaration) := by
  rw [← Draft.builder_blank, Draft.session_builder, Draft.finish_builder]
  rfl

/-- Of the two synthetic leaves of a declaration, the one that is added as synthetic is mute, and the
name that is marked afterwards stands in the text between two others. -/
theorem synthetic_leaf_writes_name :
    let host := declarationOutline.host declaration
    let spans := SpanTree.ofHost host
    SpanTree.build host = .ok spans ∧ AddsSynthetic declaration declarationCalls 2 ∧
      spans.Mute declaration.text 2 ∧
      ∃ pre post, (spans.markedAt (fun _ => .keep) 3 .keep).compose declaration.text = pre ++ "x" ++ post ∧
        (spans.markedAt (fun _ => .keep) 3 .skipAll).compose declaration.text = pre ++ post := by
  intro host spans
  have hfinish := finish_declarationCalls
  have hhost := declarationOutline.host?_tree declaration
  have hbuild : SpanTree.build host = .ok spans := rfl
  have hadded : AddsSynthetic declaration declarationCalls 2 :=
    ⟨declarationCalls.take 2, .identifier, 3, declarationCalls.drop 3, rfl, rfl⟩
  refine ⟨hbuild, hadded, ?_, ?_⟩
  · obtain ⟨-, hempty, hmute, -⟩ := synthetic_leaf_writes_slice declaration declarationCalls _ hfinish host
      spans hhost hbuild 2 ⟨.identifier, ⟨3, 3⟩, some 0, [], true, false⟩ rfl rfl rfl
    exact hmute (hempty hadded)
  · obtain ⟨-, -, -, hmarks⟩ := synthetic_leaf_writes_slice declaration declarationCalls _ hfinish host
      spans hhost hbuild 3 ⟨.identifier, ⟨4, 5⟩, some 0, [], true, false⟩ rfl rfl rfl
    obtain ⟨-, -, hshown⟩ := hmarks fun _ => .keep
    obtain ⟨pre, post, hkept, hskipped, -⟩ := hshown fun _ _ => rfl
    have hslice : Text.sliceOrEmpty declaration.text 4 5 = "x" := by decide
    exact ⟨pre, post, by rw [hkept, Node.slice, hslice], hskipped⟩

/-- The marked name of a declaration has no text, and skipping it takes it out of the modified text all
the same. -/
theorem marked_name_not_mute :
    let tree := declarationOutline.tree declaration
    let host := declarationOutline.host declaration
    let spans := SpanTree.ofHost host
    ((Builder.new declaration).session declarationCalls).finish = .ok tree ∧
      tree.host? tree.root = some host ∧ SpanTree.build host = .ok spans ∧
      (tree.nodes[3]?.map fun node => (node.text declaration, node.children)) =
        some (.error .noSourceMapping, []) ∧
      (spans.markedAt (fun _ => .keep) 3 .keep).modifiedText declaration.text = "let x = 1;" ∧
      (spans.markedAt (fun _ => .keep) 3 .skipAll).modifiedText declaration.text = "let = 1;" ∧
      ¬ spans.Mute declaration.text 3 := by
  intro tree host spans
  have hkept : (spans.markedAt (fun _ => .keep) 3 .keep).modifiedText declaration.text = "let x = 1;" := by
    decide +kernel
  have hskipped : (spans.markedAt (fun _ => .keep) 3 .skipAll).modifiedText declaration.text = "let = 1;" := by
    decide +kernel
  refine ⟨finish_declarationCalls, declarationOutline.host?_tree declaration, rfl, rfl, hkept, hskipped, ?_⟩
  intro hmute
  have hsame := hmute (fun _ => .keep) .keep .skipAll (fun _ => Modification.noConfusion)
    (fun _ => Modification.noConfusion)
  rw [hkept, hskipped] at hsame
  exact absurd hsame (by decide)

end Builder

end Synopsis
