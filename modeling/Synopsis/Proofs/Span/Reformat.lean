import Synopsis.Proofs.Span.Tree
import Synopsis.Proofs.Text.Squeeze

/-!
# Composition of reformatted sources

A span tree cuts its source into pieces: the slices of its leaves, the gaps around the children of its
other spans, and the texts that stand in for spans. Two trees of one shape may be written over different
texts with different ranges. If their pieces differ in the length and the kind of blank runs only, then
so do the texts that they write, and their modified texts are the same. Ranges are not restricted; a
slice that does not exist is an empty piece.
-/

namespace Synopsis

/-- The text that stands in for a span, if there is one. -/
def Modification.replacement? : Modification → Option String
  | .replace text => some text
  | _ => none

/-- Modifications that are the same except for the texts that stand in for spans. -/
inductive Modification.Alike : Modification → Modification → Prop where
  | keep : Alike .keep .keep
  | skipAll : Alike .skipAll .skipAll
  | skipChildren : Alike .skipChildren .skipChildren
  | replace (text other : String) : Alike (.replace text) (.replace other)

namespace SpanTree

mutual

/-- Whether two trees have the same shape and modifications, the texts that stand in for spans aside. -/
def Alike : SpanTree → SpanTree → Prop
  | .span _ modification children, .span _ modification' children' =>
    modification.Alike modification' ∧ AlikeAll children children'

/-- Whether two lists of trees are alike, one by one. -/
def AlikeAll : List SpanTree → List SpanTree → Prop
  | [], [] => True
  | tree :: trees, tree' :: trees' => tree.Alike tree' ∧ AlikeAll trees trees'
  | _, _ => False

end

section Pieces

variable (text : String)

mutual

/-- The pieces of a tree over a text: for each span the text that stands in for it, if there is one, and
its own slice or the gaps around its children. -/
def pieces : SpanTree → List String
  | .span node modification children =>
    modification.replacement?.toList ++ piecesAll node.range.start node.range.stop children

/-- The gaps between `cursor` and `stop` around some children, and the pieces of the children between
them. -/
def piecesAll (cursor stop : Nat) : List SpanTree → List String
  | [] => [Text.sliceOrEmpty text cursor stop]
  | child :: rest =>
    Text.sliceOrEmpty text cursor child.range.start :: child.pieces ++
      piecesAll child.range.stop stop rest

end

end Pieces

variable {text other : String}

mutual

/-- Trees that are alike have equally many pieces. -/
theorem Alike.length_pieces (tree tree' : SpanTree) (h : tree.Alike tree') :
    (tree.pieces text).length = (tree'.pieces other).length := by
  cases tree with
  | span node modification children =>
    cases tree' with
    | span node' modification' children' =>
      obtain ⟨hmodification, hchildren⟩ := h
      have hgaps := AlikeAll.length_piecesAll node.range.start node.range.stop node'.range.start
        node'.range.stop children children' hchildren
      rw [pieces, pieces, List.length_append, List.length_append, hgaps]
      cases hmodification <;> rfl

/-- Lists of trees that are alike have equally many pieces and gaps. -/
theorem AlikeAll.length_piecesAll (cursor stop cursor' stop' : Nat) (trees trees' : List SpanTree)
    (h : AlikeAll trees trees') :
    (piecesAll text cursor stop trees).length = (piecesAll other cursor' stop' trees').length := by
  cases trees with
  | nil =>
    cases trees' with
    | nil => rfl
    | cons tree' trees' => exact h.elim
  | cons tree trees =>
    cases trees' with
    | nil => exact h.elim
    | cons tree' trees' =>
      obtain ⟨hfirst, hrest⟩ := h
      rw [piecesAll, piecesAll, List.length_append, List.length_append, List.length_cons,
        List.length_cons, Alike.length_pieces tree tree' hfirst,
        AlikeAll.length_piecesAll tree.range.stop stop tree'.range.stop stop' trees trees' hrest]

end

/-- Pieces that correspond in a row correspond on both sides of a place with equally many before it. -/
theorem map_squeeze_append {left left' right right' : List String} (hlength : left.length = left'.length)
    (h : (left ++ right).map Text.squeeze = (left' ++ right').map Text.squeeze) :
    left.map Text.squeeze = left'.map Text.squeeze ∧ right.map Text.squeeze = right'.map Text.squeeze := by
  rw [List.map_append, List.map_append] at h
  exact List.append_inj h (by rw [List.length_map, List.length_map, hlength])

mutual

/-- Trees that are alike write texts that are equal once squeezed if their pieces are. -/
theorem squeeze_compose_congr (tree tree' : SpanTree) (halike : tree.Alike tree')
    (hpieces : (tree.pieces text).map Text.squeeze = (tree'.pieces other).map Text.squeeze) :
    Text.squeeze (tree.compose text) = Text.squeeze (tree'.compose other) := by
  cases tree with
  | span node modification children =>
    cases tree' with
    | span node' modification' children' =>
      obtain ⟨hmodification, hchildren⟩ := halike
      -- Whether or not children are skipped, the gaps around them are written.
      have hgaps (h : modification.replacement?.toList = modification'.replacement?.toList)
          (skip : Bool) := by
        rw [pieces, pieces, h] at hpieces
        exact squeeze_stitch_congr skip _ _ _ _ children children' hchildren
          (map_squeeze_append rfl hpieces).2
      cases hmodification with
      | keep =>
        rw [compose, compose]
        exact hgaps rfl false
      | skipAll => rw [compose, compose]
      | skipChildren =>
        rw [compose, compose]
        exact hgaps rfl true
      | replace replacement replacement' =>
        rw [compose, compose]
        exact (List.cons.inj hpieces).1

/-- Lists of trees that are alike write texts that are equal once squeezed if their pieces and gaps are,
whether or not the trees are skipped. -/
theorem squeeze_stitch_congr (skip : Bool) (cursor stop cursor' stop' : Nat)
    (trees trees' : List SpanTree) (halike : AlikeAll trees trees')
    (hpieces : (piecesAll text cursor stop trees).map Text.squeeze =
      (piecesAll other cursor' stop' trees').map Text.squeeze) :
    Text.squeeze (stitch text skip cursor stop trees) =
      Text.squeeze (stitch other skip cursor' stop' trees') := by
  cases trees with
  | nil =>
    cases trees' with
    | nil =>
      rw [stitch, stitch]
      exact (List.cons.inj hpieces).1
    | cons tree' trees' => exact halike.elim
  | cons tree trees =>
    cases trees' with
    | nil => exact halike.elim
    | cons tree' trees' =>
      obtain ⟨hfirst, hrest⟩ := halike
      rw [piecesAll, piecesAll] at hpieces
      obtain ⟨hgap, hbehind⟩ := List.cons.inj hpieces
      obtain ⟨hinner, hothers⟩ := map_squeeze_append (hfirst.length_pieces tree tree') hbehind
      have hchild : Text.squeeze (if skip then "" else tree.compose text) =
          Text.squeeze (if skip then "" else tree'.compose other) := by
        cases skip with
        | false => exact squeeze_compose_congr tree tree' hfirst hinner
        | true => rfl
      rw [stitch, stitch]
      exact Text.squeeze_append_congr (Text.squeeze_append_congr hgap hchild)
        (squeeze_stitch_congr skip _ stop _ stop' trees trees' hrest hothers)

end

/-- Take two span trees of one shape over two texts, with the same modifications up to the texts that
stand in for spans. If corresponding pieces are equal once squeezed, then the modified texts are equal. -/
theorem modifiedText_eq_of_reformatted (text other : String) (tree tree' : SpanTree)
    (halike : tree.Alike tree')
    (hpieces : (tree.pieces text).map Text.squeeze = (tree'.pieces other).map Text.squeeze) :
    tree.modifiedText text = tree'.modifiedText other :=
  Text.collapse_eq_of_squeeze_eq (squeeze_compose_congr tree tree' halike hpieces)

/-- A replaced word, a kept one and brackets whose content is skipped, once over two lines and once on one
line with blanks of two and three bytes. -/
theorem modifiedText_reformatted_brackets :
    let span (start stop : Nat) (modification : Modification) (children : List SpanTree) : SpanTree :=
      .span (.node 0 ⟨start, stop⟩ (.error .noSourceMapping) none []) modification children
    let tree := span 0 11 .keep [span 0 2 (.replace "a  b") [], span 4 5 .keep [],
      span 6 11 .skipChildren [span 8 9 .keep []]]
    let tree' := span 0 13 .keep [span 0 2 (.replace "a\tb") [], span 5 6 .keep [],
      span 7 13 .skipChildren [span 9 10 .keep []]]
    tree.Alike tree' ∧
      (tree.pieces "fn  x\n( y )").map Text.squeeze =
        (tree'.pieces "fn\u3000x (\ty\u00A0)").map Text.squeeze ∧
      tree.modifiedText "fn  x\n( y )" = tree'.modifiedText "fn\u3000x (\ty\u00A0)" ∧
      tree.modifiedText "fn  x\n( y )" = "a b x ( )" := by
  intro span tree tree'
  have halike : tree.Alike tree' :=
    ⟨.keep, ⟨.replace _ _, trivial⟩, ⟨.keep, trivial⟩, ⟨.skipChildren, ⟨.keep, trivial⟩, trivial⟩, trivial⟩
  have hpieces : (tree.pieces "fn  x\n( y )").map Text.squeeze =
      (tree'.pieces "fn\u3000x (\ty\u00A0)").map Text.squeeze := by decide +kernel
  exact ⟨halike, hpieces, modifiedText_eq_of_reformatted _ _ tree tree' halike hpieces, by decide +kernel⟩

end SpanTree

end Synopsis
