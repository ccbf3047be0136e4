import Synopsis.Span
import Synopsis.Text.Words

/-!
# Span trees

The spans of a host tree, nested as its nodes are. The numbers that an arena stores can be read off the
nesting: spans are numbered from zero in pre-order, and `visit` passes over them in that order with a
state, letting each visit choose its own span's modification. An unmodified span writes its source slice:
the gaps before, between and after its children, and between them what the children write. A slice that
does not exist writes nothing, so composition is total whatever the ranges are.

Arenas are built, visited, modified and written as these trees are (`SpanArena.build_eq`,
`SpanArena.forEach_arena`, `SpanArena.set_arena`, `SpanArena.modifiedText_arena`), so what is proved about
span trees holds of the arenas that summaries run on.
-/

namespace Synopsis

/-- A host tree with a modification at every node. -/
inductive SpanTree where
  | span (node : Host) (modification : Modification) (children : List SpanTree)

namespace SpanTree

/-- The node that a span stands for. -/
def node : SpanTree → Host
  | .span node _ _ => node

/-- The range of a span, which is its node's. -/
def range (tree : SpanTree) : Range := tree.node.range

mutual

/-- The span tree of a host tree, with nothing modified. The refusal is that of the first node in
pre-order whose children are not listed. -/
def build : Host → Except Refusal SpanTree
  | .node _ _ _ (some refusal) _ => .error refusal
  | .node tag range text none offspring => do
    let children ← buildAll offspring
    return .span (.node tag range text none offspring) .keep children

/-- The span trees of a list of host trees. -/
def buildAll : List Host → Except Refusal (List SpanTree)
  | [] => .ok []
  | node :: rest => do
    let tree ← build node
    let trees ← buildAll rest
    return tree :: trees

end

mutual

/-- The number of spans of a tree. -/
def size : SpanTree → Nat
  | .span _ _ children => sizeAll children + 1

/-- The number of spans of a list of trees. -/
def sizeAll : List SpanTree → Nat
  | [] => 0
  | tree :: rest => tree.size + sizeAll rest

end

/-- The numbers of the roots of consecutive trees, the first of which has number `first`. -/
def rootIds (first : Nat) : List SpanTree → List Nat
  | [] => []
  | tree :: rest => first :: rootIds (first + tree.size) rest

mutual

/-- The spans of a tree in pre-order, its root having number `id`. -/
def spansFrom (id : Nat) (parent : Option Nat) : SpanTree → List Span
  | .span node modification children =>
    { id, node, range := node.range, parent, children := rootIds (id + 1) children, modification } ::
      spansFromAll (id + 1) id children

/-- The spans of consecutive trees below one parent. -/
def spansFromAll (next parent : Nat) : List SpanTree → List Span
  | [] => []
  | tree :: rest =>
    spansFrom next (some parent) tree ++ spansFromAll (next + tree.size) parent rest

end

/-- The spans of a tree in the order of their numbers. -/
def spans (tree : SpanTree) : List Span := tree.spansFrom 0 none

variable {σ : Type}

mutual

/-- Visit the spans of a tree in pre-order, its root having number `id`. -/
def visitFrom (visitor : σ → Span → σ × Modification) (id : Nat) (parent : Option Nat)
    (state : σ) : SpanTree → σ × SpanTree
  | .span node modification children =>
    let visited := visitor state
      { id, node, range := node.range, parent, children := rootIds (id + 1) children, modification }
    let below := visitFromAll visitor (id + 1) id visited.1 children
    (below.1, .span node visited.2 below.2)

/-- Visit the spans of consecutive trees below one parent. -/
def visitFromAll (visitor : σ → Span → σ × Modification) (next parent : Nat)
    (state : σ) : List SpanTree → σ × List SpanTree
  | [] => (state, [])
  | tree :: rest =>
    let first := visitFrom visitor next (some parent) state tree
    let others := visitFromAll visitor (next + tree.size) parent first.1 rest
    (others.1, first.2 :: others.2)

end

/-- Visit every span once, in pre-order. The visitor sees the span before its descendants are
visited and gives it a modification. -/
def visit (visitor : σ → Span → σ × Modification) (state : σ) (tree : SpanTree) : σ × SpanTree :=
  tree.visitFrom visitor 0 none state

/-- Give every span the modification that a rule chooses for it. -/
def modify (rule : Span → Modification) (tree : SpanTree) : SpanTree :=
  (tree.visit (fun _ span => ((), rule span)) ()).2

/-- Give the span with one number a modification. -/
def set (tree : SpanTree) (id : Nat) (modification : Modification) : SpanTree :=
  tree.modify fun span => if span.id = id then modification else span.modification

mutual

/-- The text that a span and its descendants write, blanks included. -/
def compose (text : String) : SpanTree → String
  | .span _ .skipAll _ => ""
  | .span _ (.replace replacement) _ => replacement
  | .span node .keep children => stitch text false node.range.start node.range.stop children
  | .span node .skipChildren children => stitch text true node.range.start node.range.stop children

/-- The text from `cursor` to `stop` with what the children write in the place of their ranges, or
with nothing there if they are skipped. -/
def stitch (text : String) (skip : Bool) (cursor stop : Nat) : List SpanTree → String
  | [] => Text.sliceOrEmpty text cursor stop
  | child :: rest =>
    Text.sliceOrEmpty text cursor child.range.start ++
      (if skip then "" else child.compose text) ++
      stitch text skip child.range.stop stop rest

end

/-- The composed text of a tree with its blanks collapsed. -/
def modifiedText (text : String) (tree : SpanTree) : String :=
  Text.collapse (tree.compose text)

end SpanTree

end Synopsis
