import Synopsis.Diagnostic
import Synopsis.Summary
import Synopsis.Tree

/-!
# Summaries by path

The summary of the node at a path from the root of a tree. There is none when the path leads nowhere
or when a node below the reached one does not list its children.
-/

namespace Synopsis

/-- Why a path has no summary. -/
inductive SummaryFault where
  | noNode (path : List Nat)
  | refused (kind : Kind) (range : Range) (refusal : Refusal)
deriving DecidableEq, Repr

/-- A path as it is shown to readers. -/
def showPath (path : List Nat) : String :=
  "[" ++ ", ".intercalate (path.map toString) ++ "]"

/-- A summary's fault in words. -/
def SummaryFault.diagnostic : SummaryFault → Diagnostic
  | .noNode path => Diagnostic.general s!"no node at path {showPath path}"
  | .refused kind range refusal =>
    { message := s!"cannot summarize {kind.name}: {refusal.message}", range }

namespace Tree

/-- The summary of the node at a path from the root. -/
def summarizeAt (tree : Tree) (path : List Nat) (rules : Rules) : Except SummaryFault String :=
  match tree.at? path with
  | none => .error (.noNode path)
  | some id =>
    match tree.nodes[id]?, tree.host? id with
    | some node, some host =>
      match host.summary tree.source.text rules with
      | .ok summary => .ok summary
      | .error refusal => .error (.refused node.kind node.range refusal)
    | _, _ => .error (.noNode path)

end Tree

end Synopsis
