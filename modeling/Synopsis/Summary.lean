import Synopsis.Rules
import Synopsis.Source
import Synopsis.Span.Arena

/-!
# Declaration summaries

A summary is the source text of a node on one line, with the parts that the rules name left out or
replaced. A visitor may look at every span after its rule was applied and choose another
modification; it keeps a state of its own.
-/

namespace Synopsis.Host

/-- The state in which a visitor is left, and the summary of a node. Each span is given its rule's
modification and then handed to the visitor, in pre-order. Where a node does not list its children there
are no spans to visit. -/
def summaryWith {σ : Type} (text : String) (rules : Rules)
    (visitor : σ → Span → σ × Modification) (state : σ) (node : Host) :
    σ × Except Refusal String :=
  match SpanArena.build node with
  | .error refusal => (state, .error refusal)
  | .ok arena =>
    let visited := arena.forEach
      (fun state span => visitor state { span with modification := rules.apply span }) state
    (visited.1, .ok (visited.2.modifiedText text))

/-- The summary of a node under a rule set. -/
def summary (text : String) (rules : Rules) (node : Host) : Except Refusal String :=
  (node.summaryWith text rules (fun _ span => ((), span.modification)) ()).2

end Synopsis.Host
