import Synopsis.Proofs.Span.Preorder

/-!
# Rules first, then the visitor

A summary gives each span its rule and hands it to the visitor before it goes on to the next span. The
visitor could as well wait: a visitor chooses nothing but the modification of the span it looks at, so
giving all spans their rules first and then handing them over one after another, in pre-order and with
its state, ends in the same text and the same state. A visitor that keeps a record sees every span once,
in order, with the modification of its rule, and is not called at all where the host withholds children.
-/

namespace Synopsis

/-- The modification that rules give a node: that of its kind, if its tag is a kind with a rule. -/
def Rules.forNode (rules : Rules) (node : Host) : Modification :=
  match node.kind? with
  | some kind => (rules.get kind).getD .keep
  | none => .keep

/-- Applying rules to an unmodified span is giving it the modification for its node. -/
theorem Rules.apply_eq_forNode (rules : Rules) {span : Span} (h : span.modification = .keep) :
    rules.apply span = rules.forNode span.node := by
  rw [Rules.apply, Rules.forNode, h]
  cases span.node.kind? with
  | none => rfl
  | some kind => rfl

namespace Span

/-- Hand spans to a visitor one after another, and collect the modifications that it chooses. -/
def passOver {σ : Type} (visitor : σ → Span → σ × Modification) (state : σ) :
    List Span → σ × List Modification
  | [] => (state, [])
  | span :: rest =>
    let visited := visitor state span
    let others := passOver visitor visited.1 rest
    (others.1, visited.2 :: others.2)

section Passing

variable {σ : Type} (visitor : σ → Span → σ × Modification)

/-- The choices that are collected are those that a visit puts into the spans. -/
theorem passOver_eq_visitEach (spans : List Span) (state : σ) :
    passOver visitor state spans =
      ((SpanArena.visitEach visitor state spans).1,
        (SpanArena.visitEach visitor state spans).2.map (·.modification)) := by
  induction spans generalizing state with
  | nil => rfl
  | cons span spans ih => simp only [passOver, SpanArena.visitEach, ih, List.map_cons]

/-- Two lists of spans in a row are passed over one after the other. -/
theorem passOver_append (left right : List Span) (state : σ) :
    passOver visitor state (left ++ right) =
      ((passOver visitor (passOver visitor state left).1 right).1,
        (passOver visitor state left).2 ++ (passOver visitor (passOver visitor state left).1 right).2) := by
  simp only [passOver_eq_visitEach, SpanArena.visitEach_append, List.map_append]

/-- One modification is chosen for each span. -/
theorem length_passOver (spans : List Span) (state : σ) :
    (passOver visitor state spans).2.length = spans.length := by
  have hchildren := congrArg List.length (SpanArena.map_children_visitEach visitor state spans)
  rw [List.length_map, List.length_map] at hchildren
  rw [passOver_eq_visitEach, List.length_map, hchildren]

/-- A record changes nothing else, and it is the list of spans that are passed over. -/
theorem passOver_recorded (spans seen : List Span) (state : σ) :
    passOver (recorded visitor) (state, seen) spans =
      (((passOver visitor state spans).1, seen ++ spans), (passOver visitor state spans).2) := by
  simp only [passOver_eq_visitEach, SpanArena.visitEach_recorded]

end Passing

end Span

namespace SpanTree

section Ruling

variable {σ : Type} (visitor : σ → Span → σ × Modification) (rule : Span → Modification)

mutual

/-- A visit that applies a rule at each span is a visit of the tree with the rule applied everywhere. -/
theorem visitFrom_ruled (tree : SpanTree) (id : Nat) (parent : Option Nat) (state : σ) :
    visitFrom (fun state span => visitor state { span with modification := rule span })
        id parent state tree =
      visitFrom visitor id parent state
        (visitFrom (fun _ span => ((), rule span)) id parent () tree).2 := by
  cases tree with
  | span node modification children =>
    simp only [visitFrom, rootIds_visitFromAll, visitFromAll_ruled children]

/-- A visit of consecutive trees that applies a rule at each span is a visit with the rule applied
everywhere. -/
theorem visitFromAll_ruled (trees : List SpanTree) (next parent : Nat) (state : σ) :
    visitFromAll (fun state span => visitor state { span with modification := rule span })
        next parent state trees =
      visitFromAll visitor next parent state
        (visitFromAll (fun _ span => ((), rule span)) next parent () trees).2 := by
  cases trees with
  | nil => rfl
  | cons tree trees =>
    simp only [visitFromAll, size_visitFrom, visitFrom_ruled tree, visitFromAll_ruled trees]

end

/-- Rules may be applied during a visit or before it. -/
theorem visit_ruled (tree : SpanTree) (state : σ) :
    tree.visit (fun state span => visitor state { span with modification := rule span }) state =
      (tree.modify rule).visit visitor state :=
  visitFrom_ruled visitor rule tree 0 none state

mutual

/-- Rules that agree on the spans of a tree modify it alike. -/
theorem visitFrom_congr {rule other : Span → Modification} (tree : SpanTree) (id : Nat)
    (parent : Option Nat) (h : ∀ span ∈ tree.spansFrom id parent, rule span = other span) :
    visitFrom (fun _ span => ((), rule span)) id parent () tree =
      visitFrom (fun _ span => ((), other span)) id parent () tree := by
  cases tree with
  | span node modification children =>
    rw [spansFrom, List.forall_mem_cons] at h
    simp only [visitFrom, h.1, visitFromAll_congr children (id + 1) id h.2]

/-- Rules that agree on the spans of consecutive trees modify them alike. -/
theorem visitFromAll_congr {rule other : Span → Modification} (trees : List SpanTree)
    (next parent : Nat) (h : ∀ span ∈ spansFromAll next parent trees, rule span = other span) :
    visitFromAll (fun _ span => ((), rule span)) next parent () trees =
      visitFromAll (fun _ span => ((), other span)) next parent () trees := by
  cases trees with
  | nil => rfl
  | cons tree trees =>
    rw [spansFromAll, List.forall_mem_append] at h
    simp only [visitFromAll, visitFrom_congr tree next (some parent) h.1,
      visitFromAll_congr trees (next + tree.size) parent h.2]

end

/-- Rules that agree on the spans of a whole tree modify it alike. -/
theorem modify_congr {rule other : Span → Modification} {tree : SpanTree}
    (h : ∀ span ∈ tree.spans, rule span = other span) : tree.modify rule = tree.modify other :=
  congrArg Prod.snd (visitFrom_congr tree 0 none h)

end Ruling

section Passing

variable {σ : Type} (visitor : σ → Span → σ × Modification)

mutual

/-- A visit of a tree is a pass over its spans, whose choices become the modifications. -/
theorem visitFrom_eq_passOver (marks : Nat → Modification) (tree : SpanTree) (id : Nat)
    (parent : Option Nat) (state : σ)
    (h : (Span.passOver visitor state (tree.spansFrom id parent)).2 =
      (List.range' id tree.size).map marks) :
    visitFrom visitor id parent state tree =
      ((Span.passOver visitor state (tree.spansFrom id parent)).1, tree.markFrom marks id) := by
  cases tree with
  | span node modification children =>
    simp only [spansFrom, Span.passOver, size, List.range'_succ, List.map_cons, List.cons.injEq] at h
    obtain ⟨hroot, hbelow⟩ := h
    rw [visitFrom, markFrom, spansFrom, Span.passOver]
    simp only [hroot, visitFromAll_eq_passOver marks children (id + 1) id _ hbelow]

/-- A visit of consecutive trees is a pass over their spans, whose choices become the modifications. -/
theorem visitFromAll_eq_passOver (marks : Nat → Modification) (trees : List SpanTree)
    (next parent : Nat) (state : σ)
    (h : (Span.passOver visitor state (spansFromAll next parent trees)).2 =
      (List.range' next (sizeAll trees)).map marks) :
    visitFromAll visitor next parent state trees =
      ((Span.passOver visitor state (spansFromAll next parent trees)).1,
        markFromAll marks next trees) := by
  cases trees with
  | nil => rfl
  | cons tree trees =>
    rw [spansFromAll, Span.passOver_append, sizeAll, ← List.range'_append_1, List.map_append] at h
    -- The choices for the first tree are as many as its numbers.
    have hlength : (Span.passOver visitor state (tree.spansFrom next (some parent))).2.length =
        ((List.range' next tree.size).map marks).length := by
      rw [Span.length_passOver, ← map_id_spansFrom tree next (some parent), List.length_map,
        List.length_map]
    obtain ⟨hfirst, hrest⟩ := List.append_inj h hlength
    rw [visitFromAll, markFromAll, spansFromAll, Span.passOver_append]
    simp only [visitFrom_eq_passOver marks tree next (some parent) state hfirst,
      visitFromAll_eq_passOver marks trees (next + tree.size) parent _ hrest]

end

/-- A visit of a whole tree is a pass over its spans, and each span gets the choice with its number. -/
theorem visit_eq_passOver (tree : SpanTree) (state : σ) :
    tree.visit visitor state =
      ((Span.passOver visitor state tree.spans).1,
        tree.modify fun span => (Span.passOver visitor state tree.spans).2.getD span.id .keep) := by
  have hlength : (Span.passOver visitor state tree.spans).2.length = tree.size := by
    rw [Span.length_passOver, ← List.length_map (f := fun span : Span => span.id), map_id_spans,
      List.length_range]
  have hchoices : (Span.passOver visitor state tree.spans).2 = (List.range' 0 tree.size).map
      fun id => (Span.passOver visitor state tree.spans).2.getD id .keep := by
    refine List.ext_getElem ?_ fun index hleft _ => ?_
    · rw [List.length_map, List.length_range', hlength]
    · rw [List.getElem_map, List.getElem_range', Nat.zero_add, Nat.one_mul,
        List.getD_eq_getElem?_getD, List.getElem?_eq_getElem hleft, Option.getD_some]
  rw [modify_eq_markFrom fun id => (Span.passOver visitor state tree.spans).2.getD id .keep]
  exact visitFrom_eq_passOver visitor _ tree 0 none state hchoices

end Passing

end SpanTree

namespace Host

/-- The state in which a visitor is left, and the summary of a node, in separate passes: all spans are
given the modifications that the rules have for their nodes, the visitor is handed one span after
another, and the text is composed with what it has chosen. -/
def summaryInPasses {σ : Type} (text : String) (rules : Rules)
    (visitor : σ → Span → σ × Modification) (state : σ) (node : Host) : σ × Except Refusal String :=
  match SpanTree.build node with
  | .error refusal => (state, .error refusal)
  | .ok spans =>
    let ruled := spans.modify fun span => rules.forNode span.node
    let passed := Span.passOver visitor state ruled.spans
    (passed.1, .ok ((ruled.modify fun span => passed.2.getD span.id .keep).modifiedText text))

variable {σ : Type} (text : String) (rules : Rules) (visitor : σ → Span → σ × Modification)

/-- On a built tree the rules in force are those for the nodes. -/
theorem modify_apply_of_build {node : Host} {spans : SpanTree} (h : SpanTree.build node = .ok spans) :
    spans.modify rules.apply = spans.modify fun span => rules.forNode span.node := by
  obtain ⟨hlisted, rfl⟩ := (SpanTree.build_eq_ok_iff node spans).mp h
  refine SpanTree.modify_congr fun span hspan => ?_
  exact rules.apply_eq_forNode (SpanTree.fresh_of_mem_spansFrom node hlisted 0 none span hspan).1

/-- Interleaving rules and visits is the same as separate passes. -/
theorem summaryWith_eq_inPasses (state : σ) (node : Host) :
    node.summaryWith text rules visitor state = node.summaryInPasses text rules visitor state := by
  rw [summaryWith_eq_nested, nestedSummaryWith, summaryInPasses]
  cases hbuild : SpanTree.build node with
  | error refusal => rfl
  | ok spans =>
    dsimp only
    rw [SpanTree.visit_ruled, modify_apply_of_build rules hbuild, SpanTree.visit_eq_passOver]

/-- Interleaving the rules with a visitor gives the same summary, and leaves the visitor in the same
state, as applying all rules and then visiting. It does so for a visitor that keeps a record too, which
shows the observations to be the same: the spans of the built tree, each once and in pre-order, with the
modifications that the rules have for their nodes. If the tree cannot be built, nothing is observed. -/
theorem summaryWith_eq_rules_then_visitor (state : σ) (node : Host) :
    node.summaryWith text rules visitor state = node.summaryInPasses text rules visitor state ∧
      node.summaryWith text rules (Span.recorded visitor) (state, []) =
        node.summaryInPasses text rules (Span.recorded visitor) (state, []) ∧
      (∀ spans, SpanTree.build node = .ok spans →
        ∃ seen : List Span,
          node.summaryWith text rules (Span.recorded visitor) (state, []) =
            (((node.summaryWith text rules visitor state).1, seen),
              (node.summaryWith text rules visitor state).2) ∧
          seen = spans.spans.map (fun span => { span with modification := rules.forNode span.node }) ∧
          seen.map (·.node) = node.places.map (·.2)) ∧
      ∀ refusal, SpanTree.build node = .error refusal →
        node.summaryWith text rules visitor state = (state, .error refusal) ∧
          node.summaryWith text rules (Span.recorded visitor) (state, []) =
            ((state, []), .error refusal) := by
  refine ⟨summaryWith_eq_inPasses text rules visitor state node,
    summaryWith_eq_inPasses text rules (Span.recorded visitor) (state, []) node, ?_, ?_⟩
  · intro spans hbuild
    refine ⟨(spans.modify fun span => rules.forNode span.node).spans, ?_,
      SpanTree.spans_modify _ spans, ?_⟩
    · simp only [summaryWith_eq_inPasses, summaryInPasses, hbuild, Span.passOver_recorded,
        List.nil_append]
    · obtain ⟨hlisted, rfl⟩ := (SpanTree.build_eq_ok_iff node spans).mp hbuild
      rw [SpanTree.spans_modify, List.map_map]
      exact SpanTree.map_node_spansFrom node hlisted 0 none
  · intro refusal hbuild
    simp only [summaryWith_eq_nested, nestedSummaryWith, hbuild, and_self]

/-- A visitor that counts and replaces the second span overrides the rule for it and leaves a tag that is
no kind unmodified. Once that tag's node withholds its children nothing is counted. -/
theorem summaryWith_rules_then_counter :
    let host (withheld : Option Refusal) : Host := .node 0 ⟨0, 5⟩ (.ok "a b c") none
      [.node 1 ⟨0, 1⟩ (.ok "a") none [], .node 900 ⟨2, 3⟩ (.ok "b") withheld []]
    let rules : Rules := ⟨fun kind => if kind.ordinal = 1 then some .skipAll else none⟩
    let counter : Nat → Span → Nat × Modification := fun count span =>
      (count + 1, if count = 1 then .replace "x" else span.modification)
    (SpanTree.build (host none) = .ok (SpanTree.ofHost (host none)) ∧
        ∃ seen, (host none).summaryWith "a b c" rules (Span.recorded counter) (0, []) =
          ((3, seen), .ok "x b c") ∧ seen.map (·.modification) = [.keep, .skipAll, .keep]) ∧
      SpanTree.build (host (some .childrenUnavailable)) = .error .childrenUnavailable ∧
        (host (some .childrenUnavailable)).summaryWith "a b c" rules (Span.recorded counter) (0, []) =
          ((0, []), .error .childrenUnavailable) := by
  intro host rules counter
  have hbuild : SpanTree.build (host none) = .ok (SpanTree.ofHost (host none)) := rfl
  have hrefused :
      SpanTree.build (host (some .childrenUnavailable)) = .error .childrenUnavailable := rfl
  obtain ⟨-, -, hseen, -⟩ := summaryWith_eq_rules_then_visitor "a b c" rules counter 0 (host none)
  obtain ⟨-, -, -, hnothing⟩ :=
    summaryWith_eq_rules_then_visitor "a b c" rules counter 0 (host (some .childrenUnavailable))
  obtain ⟨seen, hsummary, hspans, -⟩ := hseen _ hbuild
  have hcounted : (host none).summaryWith "a b c" rules counter 0 = (3, .ok "x b c") := by
    rw [summaryWith_eq_nested]
    decide +kernel
  rw [hcounted] at hsummary
  refine ⟨⟨hbuild, seen, hsummary, ?_⟩, hrefused, (hnothing _ hrefused).2⟩
  rw [hspans]
  decide +kernel

end Host

end Synopsis
