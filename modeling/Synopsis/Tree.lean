import Synopsis.Host
import Synopsis.Source

/-!
# Stored trees

A tree is kept as a table of nodes that refer to one another by their position in the table. A node
may be synthetic, in which case it has no source text, or sealed, in which case its children are
kept but not listed. Paths are lists of child indices and do not pass through sealed nodes.
-/

namespace Synopsis

/-- One row of a tree's table. -/
structure Node where
  kind : Kind
  range : Range
  parent : Option Nat
  children : List Nat
  synthetic : Bool
  sealed : Bool
deriving DecidableEq, Repr

namespace Node

/-- The source text of a node. A synthetic node has none, nor has one whose range cannot be cut out
of the source. -/
def text (source : Source) (node : Node) : Except Refusal String :=
  if node.synthetic then .error .noSourceMapping
  else match node.range.slice? source.text with
    | some text => .ok text
    | none => .error .noSourceMapping

/-- The refusal that stands before a node's children, if they are not listed. -/
def withheld (node : Node) : Option Refusal :=
  if node.sealed then some .childrenUnavailable else none

/-- The children of a node, if they are listed. -/
def listed (node : Node) : Except Refusal (List Nat) :=
  match node.withheld with
  | some refusal => .error refusal
  | none => .ok node.children

end Node

/-- A source with a table of nodes over it and the number of the root. -/
structure Tree where
  source : Source
  nodes : Array Node
  root : Nat
deriving DecidableEq, Repr

namespace Tree

/-- The number of nodes of a tree. -/
def size (tree : Tree) : Nat := tree.nodes.size

/-- The node reached from a node by a list of child indices. Sealed nodes end every path. -/
def descend? (tree : Tree) (id : Nat) : List Nat → Option Nat
  | [] => some id
  | index :: path => do
    let node ← tree.nodes[id]?
    if node.sealed then none
    else
      let child ← node.children[index]?
      tree.descend? child path

/-- The node reached from the root by a list of child indices. -/
def at? (tree : Tree) (path : List Nat) : Option Nat := tree.descend? tree.root path

/-- The numbers of a node and of the nodes reached through listed children, in pre-order, down to a
given depth. -/
def listedWithin (tree : Tree) : Nat → Nat → List Nat
  | 0, _ => []
  | depth + 1, id =>
    match tree.nodes[id]? with
    | none => []
    | some node =>
      match node.listed with
      | .ok children => id :: children.flatMap (tree.listedWithin depth)
      | .error _ => [id]

/-- The numbers of a node and of all nodes reached through listed children, in pre-order. No path in
a tree is longer than its table. -/
def listedFrom (tree : Tree) (id : Nat) : List Nat := tree.listedWithin tree.size id

/-- The host tree of a node down to a given depth. -/
def hostWithin (tree : Tree) : Nat → Nat → Option Host
  | 0, _ => none
  | depth + 1, id => do
    let node ← tree.nodes[id]?
    return .node node.kind.ordinal node.range (node.text tree.source) node.withheld
      (node.children.filterMap (tree.hostWithin depth))

/-- The host tree of a node. -/
def host? (tree : Tree) (id : Nat) : Option Host := tree.hostWithin tree.size id

end Tree

end Synopsis
