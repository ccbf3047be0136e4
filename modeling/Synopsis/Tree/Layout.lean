import Synopsis.Diagnostic
import Synopsis.Tree

/-!
# Layout of a tree over its text

The ranges of a tree fit its text when every node that is not synthetic covers a slice of the text,
every child lies within its parent, and no child starts before the sibling in front of it has ended.
Each violation is a problem of its own, and all of them are reported.
-/

namespace Synopsis

/-- A violation of the layout of a tree. -/
inductive LayoutProblem where
  /-- A node's range is no slice of the text, which has `length` bytes. -/
  | unmapped (kind : Kind) (range : Range) (length : Nat)
  /-- A child's range is not within its parent's. -/
  | outsideParent (kind : Kind) (range : Range) (parent : Kind) (parentRange : Range)
  /-- A child starts before the sibling in front of it ends. -/
  | overlapsSibling (kind : Kind) (range : Range) (sibling : Kind)
deriving DecidableEq, Repr

namespace LayoutProblem

/-- The range that a problem is about. -/
def range : LayoutProblem → Range
  | .unmapped _ range _ => range
  | .outsideParent _ range _ _ => range
  | .overlapsSibling _ range _ => range

/-- A layout problem in words, its range brought into a text of the given length. -/
def diagnostic (length : Nat) (problem : LayoutProblem) : Diagnostic :=
  let range := problem.range.clampTo length
  match problem with
  | .unmapped kind shown size =>
    { message :=
        s!"{kind.name} range {shown} is outside the source text or splits a character"
      range
      notes := [s!"source text is {size} bytes"] }
  | .outsideParent kind shown parent parentRange =>
    { message :=
        s!"{kind.name} {shown} is not contained in its parent {parent.name} {parentRange}"
      range
      help := some "child ranges must lie within the parent range" }
  | .overlapsSibling kind shown sibling =>
    { message :=
        s!"{kind.name} {shown} overlaps or precedes the preceding {sibling.name} sibling"
      range
      help := some "children must be listed in source order without overlap" }

end LayoutProblem

namespace Node

/-- The problem of a node's own range. -/
def ownProblems (source : Source) (node : Node) : List LayoutProblem :=
  if node.synthetic || (node.range.slice? source.text).isSome then []
  else [.unmapped node.kind node.range source.length]

/-- The problem of a child with the range of its parent. -/
def parentProblems (parent child : Node) : List LayoutProblem :=
  if parent.range.contains child.range then []
  else [.outsideParent child.kind child.range parent.kind parent.range]

/-- The problem of a child with the sibling in front of it. -/
def siblingProblems (sibling child : Node) : List LayoutProblem :=
  if child.range.start < sibling.range.stop then
    [.overlapsSibling child.kind child.range sibling.kind]
  else []

/-- The problems of a list of children, the first of which follows `previous` if there is one. -/
def childProblems (parent : Node) : Option Node → List Node → List LayoutProblem
  | _, [] => []
  | previous, child :: rest =>
    parentProblems parent child ++
      (match previous with
        | some sibling => siblingProblems sibling child
        | none => []) ++
      childProblems parent (some child) rest

end Node

namespace Tree

/-- The layout problems of one node and of its children, in that order. -/
def problemsAt (tree : Tree) (node : Node) : List LayoutProblem :=
  node.ownProblems tree.source ++
    node.childProblems none (node.children.filterMap (tree.nodes[·]?))

/-- All layout problems of a tree, in the order of its table. -/
def problems (tree : Tree) : List LayoutProblem := tree.nodes.toList.flatMap tree.problemsAt

/-- All layout problems of a tree in words. -/
def validate (tree : Tree) : List Diagnostic :=
  tree.problems.map (LayoutProblem.diagnostic tree.source.length)

end Tree

end Synopsis
