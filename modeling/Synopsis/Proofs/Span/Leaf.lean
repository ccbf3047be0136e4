import Mathlib.Logic.Function.Basic
import Synopsis.Proofs.Span.Context
import Synopsis.Proofs.Text.Omission

/-!
# What a leaf writes

A leaf that is not replaced writes the slice of its range or nothing, and skipping the children that it
does not have is keeping it. The tree around a leaf shows no more of it than what it writes. So whether
a leaf is kept or skipped makes a difference only if its slice does, and the spans above it are
unmodified.
-/

namespace Synopsis

namespace Modification

/-- The text that a leaf writes, given the slice of its range. -/
def leafText (slice : String) : Modification → String
  | .keep => slice
  | .skipAll => ""
  | .skipChildren => slice
  | .replace text => text

/-- Whether a modification puts no text of its own in the place of a span. -/
def Plain (modification : Modification) : Prop := ∀ text, modification ≠ .replace text

/-- A leaf with an empty slice writes nothing unless it is replaced. -/
theorem leafText_empty {own : Modification} (h : own.Plain) : own.leafText "" = "" := by
  cases own with
  | keep => rfl
  | skipAll => rfl
  | skipChildren => rfl
  | replace text => exact absurd rfl (h text)

end Modification

namespace SpanTree

open Layer

/-- A tree with the modifications that numbers are given, except for one number. -/
def markedAt (tree : SpanTree) (marks : Nat → Modification) (id : Nat) (own : Modification) : SpanTree :=
  tree.modify fun span => Function.update marks id own span.id

/-- Whether nothing but replacing the span with a number can change the modified text of a tree, however
the other spans are modified. -/
def Mute (text : String) (tree : SpanTree) (id : Nat) : Prop :=
  ∀ (marks : Nat → Modification) (own other : Modification), own.Plain → other.Plain →
    (tree.markedAt marks id own).modifiedText text = (tree.markedAt marks id other).modifiedText text

/-- Whether the span with a number is an unmodified leaf that stands for a node. -/
def HasLeaf (tree : SpanTree) (id : Nat) (leaf : Host) : Prop :=
  ∃ layers, tree = (SpanTree.span leaf .keep []).within layers ∧ id = number layers

/-- The spans of nodes without children are the leaves of a built tree. -/
theorem hasLeaf_of_mem_spans {host : Host} {tree : SpanTree} (hbuild : build host = .ok tree)
    {span : Span} (hspan : span ∈ tree.spans) (hleaf : span.node.offspring = []) :
    tree.HasLeaf span.id span.node := by
  obtain ⟨sub, layers, rfl, hid, -, hnode⟩ := exists_within hspan
  obtain ⟨-, hsub⟩ := (build_eq_ok_iff _ _).mp (build_node_of_within sub layers host hbuild)
  rw [← hnode] at hsub
  refine ⟨layers, ?_, hid⟩
  rw [hsub]
  cases hspanNode : span.node with
  | node tag range text withheld offspring =>
    rw [hspanNode] at hleaf
    change offspring = [] at hleaf
    rw [ofHost, hleaf, ofHosts]

/-- Modifying a leaf leaves the layers around it alone. -/
theorem markedAt_within (leaf : Host) (layers : List Layer) (marks : Nat → Modification)
    (own : Modification) :
    ((SpanTree.span leaf .keep []).within layers).markedAt marks (number layers) own =
      (SpanTree.span leaf own []).within (markAll marks 1 layers) := by
  have hagree : ∀ id, ¬ ((SpanTree.span leaf .keep []).within layers).AtOrBelow id (number layers) →
      Function.update marks (number layers) own id = marks id := by
    intro id hid
    refine Function.update_of_ne ?_ own marks
    rintro rfl
    exact hid Relation.ReflTransGen.refl
  rw [markedAt, modify_within _ layers hagree, markFrom, markFromAll, Function.update_self]
  rfl

/-- A leaf by itself writes its text. -/
theorem compose_leaf (text : String) (leaf : Host) (own : Modification) :
    (SpanTree.span leaf own []).compose text =
      own.leafText (Text.sliceOrEmpty text leaf.range.start leaf.range.stop) := by
  cases own with
  | keep => rw [compose, stitch, Modification.leafText]
  | skipAll => rw [compose, Modification.leafText]
  | skipChildren => rw [compose, stitch, Modification.leafText]
  | replace replacement => rw [compose, Modification.leafText]

namespace HasLeaf

variable {tree : SpanTree} {id : Nat} {leaf : Host} (text : String)

/-- Two modifications of a leaf make no difference to a tree if they make none to the leaf. -/
theorem compose_congr (h : tree.HasLeaf id leaf) (marks : Nat → Modification)
    {own other : Modification}
    (hsame : own.leafText (Text.sliceOrEmpty text leaf.range.start leaf.range.stop) =
      other.leafText (Text.sliceOrEmpty text leaf.range.start leaf.range.stop)) :
    (tree.markedAt marks id own).compose text = (tree.markedAt marks id other).compose text := by
  obtain ⟨layers, rfl, rfl⟩ := h
  rw [markedAt_within, markedAt_within]
  refine compose_within_congr text _ rfl ?_
  rw [compose_leaf, compose_leaf, hsame]

/-- Under a modified span no modification of a leaf makes a difference. -/
theorem compose_of_hidden (h : tree.HasLeaf id leaf) {marks : Nat → Modification}
    (hhidden : ∃ upper, tree.Ancestor upper id ∧ marks upper ≠ .keep) (own other : Modification) :
    (tree.markedAt marks id own).compose text = (tree.markedAt marks id other).compose text := by
  obtain ⟨layers, rfl, rfl⟩ := h
  obtain ⟨upper, hupper, hmodified⟩ := hhidden
  have hlayers : ¬ ∀ layer ∈ markAll marks 1 layers, layer.modification = .keep := by
    rw [keep_markAll_iff]
    exact fun hkept => hmodified (hkept upper ((ancestor_number_iff _ layers upper).mp hupper))
  rw [markedAt_within, markedAt_within]
  exact compose_within_of_modified text _ hlayers rfl

/-- Under unmodified spans a tree shows what a leaf writes, between texts that do not depend on it. -/
theorem exists_compose_of_shown (h : tree.HasLeaf id leaf) {marks : Nat → Modification}
    (hshown : ∀ upper, tree.Ancestor upper id → marks upper = .keep) :
    ∃ pre post, ∀ own, (tree.markedAt marks id own).compose text =
      pre ++ own.leafText (Text.sliceOrEmpty text leaf.range.start leaf.range.stop) ++ post := by
  obtain ⟨layers, rfl, rfl⟩ := h
  have hlayers : ∀ layer ∈ markAll marks 1 layers, layer.modification = .keep := by
    rw [keep_markAll_iff]
    exact fun upper hupper => hshown upper ((ancestor_number_iff _ layers upper).mpr hupper)
  obtain ⟨pre, post, hcompose⟩ := exists_compose_around text _ hlayers leaf.range
  refine ⟨pre, post, fun own => ?_⟩
  rw [markedAt_within, hcompose (SpanTree.span leaf own []) rfl, compose_leaf]

/-- A leaf with an empty slice is mute. -/
theorem mute (h : tree.HasLeaf id leaf)
    (hempty : Text.sliceOrEmpty text leaf.range.start leaf.range.stop = "") : tree.Mute text id := by
  intro marks own other hown hother
  rw [modifiedText, modifiedText, h.compose_congr text marks]
  rw [hempty, Modification.leafText_empty hown, Modification.leafText_empty hother]

end HasLeaf

end SpanTree

end Synopsis
