import Synopsis.Tree

/-!
# Building trees

A builder takes calls in the order in which a reader meets the nodes: a node is started, its
children follow, and it is finished with its end. A call that cannot be carried out is a misuse; it
answers with its cause, and the builder goes on from the state that the call had reached. Finishing
a node with an end before its start has by then closed the node.
-/

namespace Synopsis

/-- The state of a tree under construction: the table so far, the started nodes from the innermost
outwards, and the root once there is one. -/
structure Builder where
  source : Source
  nodes : Array Node
  started : List Nat
  root : Option Nat
deriving DecidableEq, Repr

/-- A call to a builder. -/
inductive BuilderCall where
  | startNode (kind : Kind) (start : Nat)
  | token (kind : Kind) (start stop : Nat)
  | synthetic (kind : Kind) (offset : Nat)
  | finishNode (stop : Nat)
  | markSynthetic (id : Nat)
  | markSealed (id : Nat)
deriving DecidableEq, Repr

/-- Why a builder cannot carry out a call. -/
inductive Misuse where
  | rootFinished
  | nothingStarted
  | range (fault : Range.Fault)
  | unfinished
  | noRoot
deriving DecidableEq, Repr

/-- The wording of a misuse. -/
def Misuse.message : Misuse → String
  | .rootFinished => "tree already has a finished root"
  | .nothingStarted => "finish_node without start_node"
  | .range fault => fault.message
  | .unfinished => "unfinished nodes in tree builder"
  | .noRoot => "tree builder has no root node"

namespace Builder

/-- A builder without nodes. -/
def new (source : Source) : Builder := { source, nodes := #[], started := [], root := none }

/-- Add a node to the table, below the innermost started node or else as the root. -/
def push (builder : Builder) (kind : Kind) (range : Range) (synthetic : Bool) :
    Except Misuse Nat × Builder :=
  let id := builder.nodes.size
  let node parent : Node := { kind, range, parent, children := [], synthetic, sealed := false }
  match builder.started, builder.root with
  | [], some _ => (.error .rootFinished, builder)
  | [], none => (.ok id, { builder with nodes := builder.nodes.push (node none), root := some id })
  | parent :: _, _ =>
    let linked := builder.nodes.modify parent fun above =>
      { above with children := above.children ++ [id] }
    (.ok id, { builder with nodes := linked.push (node (some parent)) })

/-- Add a node that has children to follow. Until it is finished it ends where it starts. -/
def startNode (builder : Builder) (kind : Kind) (start : Nat) : Except Misuse Nat × Builder :=
  match builder.push kind (Range.point start) false with
  | (.ok id, pushed) => (.ok id, { pushed with started := id :: pushed.started })
  | failed => failed

/-- Add a node without children. Its range is checked before anything is added. -/
def token (builder : Builder) (kind : Kind) (start stop : Nat) : Except Misuse Nat × Builder :=
  match Range.ofBounds start stop with
  | .ok range => builder.push kind range false
  | .error fault => (.error (.range fault), builder)

/-- Add a node without source text and without children. -/
def synthetic (builder : Builder) (kind : Kind) (offset : Nat) : Except Misuse Nat × Builder :=
  builder.push kind (Range.point offset) true

/-- Close the innermost started node and give it its end. -/
def finishNode (builder : Builder) (stop : Nat) : Except Misuse Unit × Builder :=
  match builder.started with
  | [] => (.error .nothingStarted, builder)
  | id :: outer =>
    let closed := { builder with started := outer }
    let start := match builder.nodes[id]? with
      | some node => node.range.start
      | none => 0
    match Range.ofBounds start stop with
    | .error fault => (.error (.range fault), closed)
    | .ok range =>
      (.ok (), { closed with nodes := closed.nodes.modify id fun node => { node with range } })

/-- Take a node's source text away. -/
def markSynthetic (builder : Builder) (id : Nat) : Builder :=
  { builder with nodes := builder.nodes.modify id fun node => { node with synthetic := true } }

/-- Stop a node's children from being listed. -/
def markSealed (builder : Builder) (id : Nat) : Builder :=
  { builder with nodes := builder.nodes.modify id fun node => { node with sealed := true } }

/-- The answer to a call with the builder after it, unless the call was a misuse. -/
def carriedOut {α : Type} : Except Misuse α × Builder → Except Misuse (α × Builder)
  | (.ok answer, after) => .ok (answer, after)
  | (.error misuse, _) => .error misuse

/-- Carry out a call. Calls that add a node answer with its number. -/
def perform (builder : Builder) : BuilderCall → Except Misuse (Option Nat) × Builder
  | .startNode kind start =>
    let (answer, after) := builder.startNode kind start
    (answer.map some, after)
  | .token kind start stop =>
    let (answer, after) := builder.token kind start stop
    (answer.map some, after)
  | .synthetic kind offset =>
    let (answer, after) := builder.synthetic kind offset
    (answer.map some, after)
  | .finishNode stop =>
    let (answer, after) := builder.finishNode stop
    (answer.map fun _ => none, after)
  | .markSynthetic id => (.ok none, builder.markSynthetic id)
  | .markSealed id => (.ok none, builder.markSealed id)

/-- Carry out calls until one of them is a misuse. -/
def run (builder : Builder) : List BuilderCall → Except Misuse Builder
  | [] => .ok builder
  | call :: rest =>
    match builder.perform call with
    | (.ok _, after) => after.run rest
    | (.error misuse, _) => .error misuse

/-- The finished tree, once there is a root and nothing is left started. -/
def finish (builder : Builder) : Except Misuse Tree :=
  match builder.started, builder.root with
  | _ :: _, _ => .error .unfinished
  | [], none => .error .noRoot
  | [], some root => .ok { source := builder.source, nodes := builder.nodes, root }

end Builder

end Synopsis
