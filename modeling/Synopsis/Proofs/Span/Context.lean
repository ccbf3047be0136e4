import Synopsis.Proofs.Span.Tree
import Synopsis.Proofs.Span.Marks

/-!
# What a span writes, and where it shows

Nothing is assumed about ranges here. What a subtree writes is written whole and unchanged into the
text of the tree around it if every span above it is unmodified; the text before and behind it does
not depend on the modifications in the subtree. One modified span above it hides the subtree: then its
modifications change nothing.
-/

namespace Synopsis

namespace SpanTree

open Layer

section Composing

variable (text : String)

/-- A child shows in the text of its kept parent, between texts that depend on its range only. -/
theorem exists_stitch_around (left right : List SpanTree) (range : Range) (cursor stop : Nat) :
    ∃ pre post, ∀ tree : SpanTree, tree.range = range →
      stitch text false cursor stop (left ++ tree :: right) = pre ++ tree.compose text ++ post := by
  induction left generalizing cursor with
  | nil =>
    refine ⟨Text.sliceOrEmpty text cursor range.start, stitch text false range.stop stop right, ?_⟩
    rintro tree rfl
    rw [List.nil_append, stitch]
    rfl
  | cons first left ih =>
    obtain ⟨pre, post, hstitch⟩ := ih first.range.stop
    refine ⟨Text.sliceOrEmpty text cursor first.range.start ++ first.compose text ++ pre, post, ?_⟩
    intro tree hrange
    rw [List.cons_append, stitch, hstitch tree hrange]
    simp only [Bool.false_eq_true, if_false, String.append_assoc]

/-- A child that is skipped shows by its range only. -/
theorem stitch_skip_congr (left right : List SpanTree) {tree other : SpanTree}
    (h : tree.range = other.range) (cursor stop : Nat) :
    stitch text true cursor stop (left ++ tree :: right) =
      stitch text true cursor stop (left ++ other :: right) := by
  induction left generalizing cursor with
  | nil => simp only [List.nil_append, stitch, if_true, h]
  | cons first left ih => rw [List.cons_append, List.cons_append, stitch, stitch, ih]

/-- A layer that is modified hides what is in its gap. -/
theorem compose_wrap_of_modified (layer : Layer) (hlayer : layer.modification ≠ .keep)
    {tree other : SpanTree} (h : tree.range = other.range) :
    (layer.wrap tree).compose text = (layer.wrap other).compose text := by
  rw [wrap, wrap]
  cases hmodification : layer.modification with
  | keep => contradiction
  | skipAll => rw [compose, compose]
  | skipChildren =>
    rw [compose, compose]
    exact stitch_skip_congr text layer.left layer.right h _ _
  | replace replacement => rw [compose, compose]

/-- Layers that are not modified show what a tree writes, between texts that depend on its range
only. -/
theorem exists_compose_around (layers : List Layer) (hlayers : ∀ layer ∈ layers, layer.modification = .keep)
    (range : Range) :
    ∃ pre post, ∀ tree : SpanTree, tree.range = range →
      (tree.within layers).compose text = pre ++ tree.compose text ++ post := by
  induction layers generalizing range with
  | nil => exact ⟨"", "", fun tree _ => by rw [within, String.empty_append, String.append_empty]⟩
  | cons layer outer ih =>
    obtain ⟨hlayer, houter⟩ := List.forall_mem_cons.mp hlayers
    obtain ⟨pre, post, hcompose⟩ := ih houter layer.node.range
    obtain ⟨before, after, hstitch⟩ := exists_stitch_around text layer.left layer.right range
      layer.node.range.start layer.node.range.stop
    refine ⟨pre ++ before, after ++ post, ?_⟩
    intro tree hrange
    rw [within, hcompose (layer.wrap tree) rfl, wrap, hlayer, compose, hstitch tree hrange]
    simp only [String.append_assoc]

/-- Trees that write the same in the same range write the same within layers. -/
theorem compose_within_congr (layers : List Layer) {tree other : SpanTree}
    (hrange : tree.range = other.range) (hcompose : tree.compose text = other.compose text) :
    (tree.within layers).compose text = (other.within layers).compose text := by
  induction layers generalizing tree other with
  | nil => exact hcompose
  | cons layer outer ih =>
    rw [within, within]
    refine ih rfl ?_
    by_cases hlayer : layer.modification = .keep
    · obtain ⟨pre, post, hstitch⟩ := exists_stitch_around text layer.left layer.right other.range
        layer.node.range.start layer.node.range.stop
      rw [wrap, wrap, hlayer, compose, compose, hstitch tree hrange, hstitch other rfl, hcompose]
    · exact compose_wrap_of_modified text layer hlayer hrange

/-- One modified layer hides the tree within. -/
theorem compose_within_of_modified (layers : List Layer)
    (hlayers : ¬ ∀ layer ∈ layers, layer.modification = .keep) {tree other : SpanTree}
    (hrange : tree.range = other.range) :
    (tree.within layers).compose text = (other.within layers).compose text := by
  induction layers generalizing tree other with
  | nil => exact absurd (List.forall_mem_nil _) hlayers
  | cons layer outer ih =>
    rw [within, within]
    by_cases hlayer : layer.modification = .keep
    · exact ih (fun houter => hlayers (List.forall_mem_cons.mpr ⟨hlayer, houter⟩)) rfl
    · exact compose_within_congr text outer rfl (compose_wrap_of_modified text layer hlayer hrange)

end Composing

/-- Take any host that can be built, whatever its ranges are, any modifications and any span. The tree
built from the span's node alone has the spans at and below that span. If a span above it is modified,
nothing that is changed at or below it changes the composed text. Otherwise the composed text is that
of the span's own tree, modified alike, between two texts that no such change affects. -/
theorem compose_modify_hides_or_shows (text : String) (host : Host) (tree : SpanTree)
    (hbuild : build host = .ok tree) (marks : Nat → Modification) (span : Span)
    (hspan : span ∈ tree.spans) :
    ∃ sub, build span.node = .ok sub ∧
      (∀ whole, whole ∈ tree.spans ∧ tree.AtOrBelow whole.id span.id ↔
        ∃ part ∈ sub.spans, whole = part.moved span.id span.parent) ∧
      ((∃ upper, tree.Ancestor upper span.id ∧ marks upper ≠ .keep) →
        ∀ other : Nat → Modification,
          (∀ id, ¬ tree.AtOrBelow id span.id → other id = marks id) →
          (tree.modify fun whole => other whole.id).compose text =
            (tree.modify fun whole => marks whole.id).compose text) ∧
      ((∀ upper, tree.Ancestor upper span.id → marks upper = .keep) →
        ∃ pre post, ∀ other : Nat → Modification,
          (∀ id, ¬ tree.AtOrBelow id span.id → other id = marks id) →
          (tree.modify fun whole => other whole.id).compose text =
            pre ++ (sub.modify fun part => other (span.id + part.id)).compose text ++ post) := by
  obtain ⟨sub, layers, rfl, hid, hparent, hnode⟩ := exists_within hspan
  rw [hid, hparent, hnode]
  refine ⟨sub, build_node_of_within sub layers host hbuild, mem_spans_atOrBelow_iff sub layers, ?_, ?_⟩
  · rintro ⟨upper, hupper, hmodified⟩ other hagree
    have hlayers : ¬ ∀ layer ∈ markAll marks sub.size layers, layer.modification = .keep := by
      rw [keep_markAll_iff]
      exact fun hkept => hmodified (hkept upper ((ancestor_number_iff sub layers upper).mp hupper))
    have hrange :
        (sub.markFrom other (number layers)).range = (sub.markFrom marks (number layers)).range := by
      rw [range_markFrom, range_markFrom]
    rw [modify_within sub layers hagree, modify_within sub layers fun _ _ => rfl]
    exact compose_within_of_modified text _ hlayers hrange
  · intro hkept
    have hlayers : ∀ layer ∈ markAll marks sub.size layers, layer.modification = .keep := by
      rw [keep_markAll_iff]
      exact fun upper hupper => hkept upper ((ancestor_number_iff sub layers upper).mpr hupper)
    obtain ⟨pre, post, hcompose⟩ := exists_compose_around text _ hlayers sub.range
    refine ⟨pre, post, ?_⟩
    intro other hagree
    rw [modify_within sub layers hagree, hcompose _ (range_markFrom _ _ _),
      modify_eq_markFrom (fun id => other (number layers + id)), ← markFrom_add, Nat.add_zero]

/-- An inverted range whose child lies outside of the text, next to a range that overlaps it: the span
with number one shows, whatever modifications it and its child are given. Once it is replaced, its child
is hidden, whatever modification that is given. -/
theorem compose_modify_shows_inverted :
    let leaf : Host := .node 2 ⟨2, 9⟩ (.error .noSourceMapping) none []
    let inner : Host := .node 1 ⟨3, 1⟩ (.error .noSourceMapping) none [leaf]
    let host : Host := .node 0 ⟨0, 4⟩ (.ok "abcd") none [inner, .node 3 ⟨0, 2⟩ (.ok "ab") none []]
    let shown : Span := ⟨1, inner, ⟨3, 1⟩, some 0, [2], .keep⟩
    let hidden : Span := ⟨2, leaf, ⟨2, 9⟩, some 1, [], .keep⟩
    let replaced (replacement : String) (id : Nat) : Modification :=
      if id = 1 then .replace replacement else .keep
    build host = .ok (ofHost host) ∧ build inner = .ok (ofHost inner) ∧
      shown ∈ (ofHost host).spans ∧ hidden ∈ (ofHost host).spans ∧ (ofHost host).Ancestor 1 2 ∧
      (∃ pre post, pre ++ "?" ++ post = "abc?abcd" ∧ ∀ other : Nat → Modification,
        (∀ id, ¬ (ofHost host).AtOrBelow id 1 → other id = .keep) →
        ((ofHost host).modify fun whole => other whole.id).compose "abcd" =
          pre ++ ((ofHost inner).modify fun part => other (1 + part.id)).compose "abcd" ++ post) ∧
      ∀ other : Nat → Modification,
        (∀ id, ¬ (ofHost host).AtOrBelow id 2 → other id = replaced "!" id) →
        ((ofHost host).modify fun whole => other whole.id).compose "abcd" = "abc!abcd" := by
  intro leaf inner host shown hidden replaced
  have hbuild : build host = .ok (ofHost host) := rfl
  have hinner : build inner = .ok (ofHost inner) := rfl
  have hshown : shown ∈ (ofHost host).spans := List.mem_of_getElem? (i := 1) rfl
  have hhidden : hidden ∈ (ofHost host).spans := List.mem_of_getElem? (i := 2) rfl
  have hbelow : (ofHost host).Ancestor 1 2 := .single ⟨hidden, hhidden, rfl, rfl⟩
  refine ⟨hbuild, hinner, hshown, hhidden, hbelow, ?_, ?_⟩
  · obtain ⟨sub, hsub, -, -, hshows⟩ :=
      compose_modify_hides_or_shows "abcd" host (ofHost host) hbuild (fun _ => .keep) shown hshown
    cases hinner.symm.trans hsub
    obtain ⟨pre, post, hcompose⟩ := hshows fun _ _ => rfl
    have hreplaced := hcompose (replaced "?") fun id hid => by
      refine if_neg ?_
      rintro rfl
      exact hid .refl
    exact ⟨pre, post, hreplaced.symm.trans (by decide +kernel), hcompose⟩
  · obtain ⟨sub, -, -, hhides, -⟩ :=
      compose_modify_hides_or_shows "abcd" host (ofHost host) hbuild (replaced "!") hidden hhidden
    intro other hother
    exact (hhides ⟨1, hbelow, by decide⟩ other hother).trans (by decide +kernel)

end SpanTree

end Synopsis
