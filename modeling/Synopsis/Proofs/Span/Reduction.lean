import Synopsis.Proofs.Span.Tree
import Synopsis.Proofs.Span.Links
import Synopsis.Proofs.Span.Mirror

/-!
# Skipping written as replacing

Two of the four modifications would do. Skipping a span is replacing it by nothing, and skipping the
children of a span is keeping the span and replacing each child by nothing. Here all spans of a tree are
rewritten at once, each by what it and the span above it had before, and the tree writes the same text.
Nothing is assumed about ranges.
-/

namespace Synopsis

namespace Modification

/-- The modification of a span by itself, without skipping. -/
def unskipped : Modification → Modification
  | .keep => .keep
  | .skipAll => .replace ""
  | .skipChildren => .keep
  | .replace text => .replace text

/-- The modification of a span without skipping, given that of the span above it if there is one. A
child that is skipped is replaced by nothing, whatever its own modification is. -/
def reduced (above : Option Modification) (own : Modification) : Modification :=
  if above = some .skipChildren then .replace "" else own.unskipped

/-- Under a span that skips its children everything is replaced by nothing. -/
theorem reduced_skipChildren (own : Modification) : own.reduced (some .skipChildren) = .replace "" :=
  if_pos rfl

/-- Under any other span, and at the root, only a span's own modification counts. -/
theorem reduced_of_ne {above : Option Modification} (h : above ≠ some .skipChildren)
    (own : Modification) : own.reduced above = own.unskipped :=
  if_neg h

/-- Nothing is skipped any more. -/
theorem reduced_eq_keep_or_replace (above : Option Modification) (own : Modification) :
    own.reduced above = .keep ∨ ∃ text, own.reduced above = .replace text := by
  by_cases habove : above = some .skipChildren
  · rw [habove, reduced_skipChildren]
    exact Or.inr ⟨"", rfl⟩
  · rw [reduced_of_ne habove]
    cases own with
    | keep => exact Or.inl rfl
    | skipAll => exact Or.inr ⟨"", rfl⟩
    | skipChildren => exact Or.inl rfl
    | replace text => exact Or.inr ⟨text, rfl⟩

end Modification

namespace SpanTree

/-- The modification of the span with a number. -/
def modificationAt? (tree : SpanTree) (id : Nat) : Option Modification :=
  tree.spans[id]?.map (·.modification)

/-- A tree with all skipping written as replacing, at every span by what the tree has at this span and
at the one above it. -/
def reduce (tree : SpanTree) : SpanTree :=
  tree.modify fun span => span.modification.reduced (span.parent.bind tree.modificationAt?)

/-- The number of a span is its place in the order of the spans. -/
theorem modificationAt?_of_mem {tree : SpanTree} {span : Span} (h : span ∈ tree.spans) :
    tree.modificationAt? span.id = some span.modification := by
  obtain ⟨index, hindex⟩ := List.mem_iff_getElem?.mp h
  have hid : (tree.spans.map (·.id))[index]? = some span.id := by
    rw [List.getElem?_map, hindex, Option.map_some]
  rw [map_id_spans, List.getElem?_eq_some_iff] at hid
  obtain ⟨hlt, heq⟩ := hid
  rw [List.getElem_range] at heq
  rw [modificationAt?, ← heq, hindex, Option.map_some]

mutual

/-- A tree without skipping, below a span with the given modification if there is one. -/
def reduceUnder (above : Option Modification) : SpanTree → SpanTree
  | .span node own children => .span node (own.reduced above) (reduceAllUnder own children)

/-- The trees below a span with the given modification without skipping. -/
def reduceAllUnder (above : Modification) : List SpanTree → List SpanTree
  | [] => []
  | tree :: rest => reduceUnder (some above) tree :: reduceAllUnder above rest

end

section Lookup

variable (modification? : Nat → Option Modification)

mutual

/-- Looking up the span above by its number is handing its modification down. -/
theorem snd_visitFrom_eq_reduceUnder (tree : SpanTree) (id : Nat) (parent : Option Nat)
    (h : ∀ span ∈ tree.spansFrom id parent, modification? span.id = some span.modification) :
    (visitFrom (fun _ span => ((), span.modification.reduced (span.parent.bind modification?)))
        id parent () tree).2 = tree.reduceUnder (parent.bind modification?) := by
  cases tree with
  | span node own children =>
    rw [spansFrom, List.forall_mem_cons] at h
    obtain ⟨hroot, hbelow⟩ := h
    rw [visitFrom, reduceUnder,
      snd_visitFromAll_eq_reduceAllUnder children (id + 1) id own hroot hbelow]

/-- Looking up the span above consecutive trees is handing its modification down. -/
theorem snd_visitFromAll_eq_reduceAllUnder (trees : List SpanTree) (next parent : Nat)
    (above : Modification) (habove : modification? parent = some above)
    (h : ∀ span ∈ spansFromAll next parent trees, modification? span.id = some span.modification) :
    (visitFromAll (fun _ span => ((), span.modification.reduced (span.parent.bind modification?)))
        next parent () trees).2 = reduceAllUnder above trees := by
  cases trees with
  | nil => rfl
  | cons tree trees =>
    rw [spansFromAll, List.forall_mem_append] at h
    obtain ⟨hfirst, hrest⟩ := h
    rw [visitFromAll, reduceAllUnder,
      snd_visitFrom_eq_reduceUnder tree next (some parent) hfirst, Option.bind_some, habove,
      snd_visitFromAll_eq_reduceAllUnder trees (next + tree.size) parent above habove hrest]

end

end Lookup

/-- Rewriting all spans at once is rewriting a tree from its root down. -/
theorem reduce_eq_reduceUnder (tree : SpanTree) : tree.reduce = tree.reduceUnder none :=
  snd_visitFrom_eq_reduceUnder tree.modificationAt? tree 0 none fun _ => modificationAt?_of_mem

section Composing

variable (text : String)

/-- Rewriting modifications keeps ranges. -/
theorem range_reduceUnder (above : Option Modification) (tree : SpanTree) :
    (tree.reduceUnder above).range = tree.range := by
  cases tree with
  | span node own children =>
    rw [reduceUnder]
    rfl

/-- A child that is skipped writes nothing. -/
theorem compose_reduceUnder_skipChildren (tree : SpanTree) :
    (tree.reduceUnder (some .skipChildren)).compose text = "" := by
  cases tree with
  | span node own children => rw [reduceUnder, Modification.reduced_skipChildren, compose]

/-- Children that are replaced by nothing leave the gaps around them, as skipped children do. -/
theorem stitch_reduceAllUnder_skipChildren (cursor stop : Nat) (trees : List SpanTree) :
    stitch text false cursor stop (reduceAllUnder .skipChildren trees) =
      stitch text true cursor stop trees := by
  induction trees generalizing cursor with
  | nil => rfl
  | cons tree trees ih =>
    rw [reduceAllUnder, stitch, stitch, ih, range_reduceUnder, compose_reduceUnder_skipChildren]
    rfl

mutual

/-- A tree whose root is not skipped by the span above it writes the same without skipping. -/
theorem compose_reduceUnder (tree : SpanTree) (above : Option Modification)
    (h : above ≠ some .skipChildren) : (tree.reduceUnder above).compose text = tree.compose text := by
  cases tree with
  | span node own children =>
    rw [reduceUnder, Modification.reduced_of_ne h]
    cases own with
    | keep =>
      rw [Modification.unskipped, compose, compose]
      exact stitch_reduceAllUnder_keep children node.range.start node.range.stop
    | skipAll => rw [Modification.unskipped, compose, compose]
    | skipChildren =>
      rw [Modification.unskipped, compose, compose]
      exact stitch_reduceAllUnder_skipChildren text node.range.start node.range.stop children
    | replace replacement => rw [Modification.unskipped, compose, compose]

/-- The children of an unmodified span and the gaps around them are written the same without
skipping. -/
theorem stitch_reduceAllUnder_keep (trees : List SpanTree) (cursor stop : Nat) :
    stitch text false cursor stop (reduceAllUnder .keep trees) =
      stitch text false cursor stop trees := by
  cases trees with
  | nil => rfl
  | cons tree trees =>
    have hfirst := compose_reduceUnder tree (some .keep) (by decide)
    rw [reduceAllUnder, stitch, stitch, range_reduceUnder, hfirst,
      stitch_reduceAllUnder_keep trees tree.range.stop stop]

end

end Composing

/-- Whatever the ranges and modifications of a tree are, it has the same modified text with all
skipping written as replacing, and then nothing in it is skipped. -/
theorem modifiedText_reduce (text : String) (tree : SpanTree) :
    tree.reduce.modifiedText text = tree.modifiedText text ∧
      ∀ span ∈ tree.reduce.spans,
        span.modification = .keep ∨ ∃ replacement, span.modification = .replace replacement := by
  constructor
  · rw [modifiedText, modifiedText, reduce_eq_reduceUnder,
      compose_reduceUnder text tree none (Option.some_ne_none _).symm]
  · intro span hspan
    rw [reduce, spans_modify, List.mem_map] at hspan
    obtain ⟨before, -, rfl⟩ := hspan
    exact Modification.reduced_eq_keep_or_replace _ before.modification

/-- A skipped child that skips its own children and an inverted leaf that skips those it does not have
are both replaced by nothing, and the inverted leaf still leaves a letter twice. -/
theorem modifiedText_reduce_inverted :
    let leaf (tag : Nat) (range : Range) : SpanTree :=
      .span (.node tag range (.error .noSourceMapping) none []) .skipChildren []
    let tree : SpanTree := .span (.node 0 ⟨0, 6⟩ (.ok "a b c ") none []) .skipChildren
      [.span (.node 1 ⟨0, 3⟩ (.ok "a b") none []) .skipChildren [leaf 2 ⟨2, 3⟩], leaf 3 ⟨5, 4⟩]
    tree.reduce.spans.map (·.modification) = [.keep, .replace "", .replace "", .replace ""] ∧
      tree.reduce.modifiedText "a b c " = "cc" ∧ tree.modifiedText "a b c " = "cc" ∧
      ∃ span ∈ tree.reduce.spans, span.id = 3 ∧
        (span.modification = .keep ∨ ∃ replacement, span.modification = .replace replacement) := by
  intro leaf tree
  obtain ⟨htext, hreduced⟩ := modifiedText_reduce "a b c " tree
  have hwritten : tree.modifiedText "a b c " = "cc" := by decide
  obtain ⟨span, hspan, hid⟩ : ∃ span ∈ tree.reduce.spans, span.id = 3 :=
    ⟨_, List.mem_of_getElem? (i := 3) rfl, rfl⟩
  exact ⟨by decide, htext.trans hwritten, hwritten, span, hspan, hid, hreduced span hspan⟩

end SpanTree

end Synopsis
