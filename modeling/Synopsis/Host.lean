import Synopsis.Kind
import Synopsis.Range

/-!
# Host trees

The view of a syntax tree that summaries and dumps work on. The program that owns a tree may refuse
to give a node's text or to list its children; both refusals are part of the view. Nothing is
assumed about ranges: they may be inverted, overlap or lie outside the text.
-/

namespace Synopsis

/-- Why a host does not answer a question about a node. -/
inductive Refusal where
  | noSourceMapping
  | childrenUnavailable
deriving DecidableEq, Repr

/-- The wording of a refusal. -/
def Refusal.message : Refusal → String
  | .noSourceMapping => "node has no source mapping"
  | .childrenUnavailable => "node children are unavailable"

/-- A node with its integer tag, its range, its text if the host gives it, and its children, which
are listed only if no refusal stands before them. -/
inductive Host where
  | node (tag : Nat) (range : Range) (text : Except Refusal String) (withheld : Option Refusal)
      (offspring : List Host)

namespace Host

/-- The integer tag of a node. -/
def tag : Host → Nat
  | .node tag _ _ _ _ => tag

/-- The range of a node. -/
def range : Host → Range
  | .node _ range _ _ _ => range

/-- The text of a node, if the host gives it. -/
def text : Host → Except Refusal String
  | .node _ _ text _ _ => text

/-- The nodes directly below a node, whether or not the host lists them. -/
def offspring : Host → List Host
  | .node _ _ _ _ offspring => offspring

/-- The children of a node, if the host lists them. -/
def children : Host → Except Refusal (List Host)
  | .node _ _ _ (some refusal) _ => .error refusal
  | .node _ _ _ none offspring => .ok offspring

/-- The kind of a node, if its tag is the ordinal of one. -/
def kind? (node : Host) : Option Kind := Kind.ofOrdinal? node.tag

/-- The printable name of a node's tag. -/
def kindName (node : Host) : String := Kind.tagName node.tag

/-- The node reached by a list of child indices, through listed and unlisted children alike. -/
def subtree? (node : Host) : List Nat → Option Host
  | [] => some node
  | index :: path => node.offspring[index]?.bind fun child => child.subtree? path

end Host

end Synopsis
