import Synopsis.Proofs.Span.Arena
import Synopsis.Proofs.Tree.Paths
import Synopsis.Tree.Summary

/-!
# When a path has a summary

Sealed nodes stand in the way of a summary in two places. A path does not pass through one, and the
spans of the node that it reaches cannot be built if there is one at or below it. Both are settled before
any rule is looked at, so a path has a summary under all rules or under none, whatever the rules would
have left out.
-/

namespace Synopsis

namespace Tree

/-- The node reached from a node by a list of child indices, through sealed nodes as well. -/
def follow? (tree : Tree) (id : Nat) : List Nat → Option Nat
  | [] => some id
  | index :: path => do
    let node ← tree.nodes[id]?
    let child ← node.children[index]?
    tree.follow? child path

/-- Whether a path leads from the root to a node and no node that it passes on the way is sealed. -/
structure Leads (tree : Tree) (path : List Nat) (id : Nat) : Prop where
  reached : tree.follow? tree.root path = some id
  passable : ∀ before passed, before <+: path → before ≠ path →
    tree.follow? tree.root before = some passed → ¬ tree.IsSealed passed

/-- Whether neither a node nor any node below it is sealed. -/
def Unsealed (tree : Tree) (id : Nat) : Prop :=
  ∀ lower, lower = id ∨ Node.Ancestor tree.nodes id lower → ¬ tree.IsSealed lower

/-- Paths in a row are followed one after the other. -/
theorem follow?_append (tree : Tree) (id : Nat) (first second : List Nat) :
    tree.follow? id (first ++ second) =
      (tree.follow? id first).bind fun reached => tree.follow? reached second := by
  induction first generalizing id with
  | nil => rfl
  | cons index first ih =>
    simp only [List.cons_append, follow?, ih, Option.bind_eq_bind, Option.bind_assoc]

/-- A path that ends in an index reaches a child, sealed or not, of what it reaches without the index. -/
theorem follow?_concat_eq_some_iff (tree : Tree) (path : List Nat) (index id : Nat) :
    tree.follow? tree.root (path ++ [index]) = some id ↔
      ∃ above, tree.follow? tree.root path = some above ∧
        ∃ node, tree.nodes[above]? = some node ∧ node.children[index]? = some id := by
  simp [follow?_append, follow?, Option.bind_eq_some_iff]

/-- Paths stop at sealed nodes and nowhere else. -/
theorem at?_eq_some_iff_leads (tree : Tree) (path : List Nat) (id : Nat) :
    tree.at? path = some id ↔ tree.Leads path id := by
  induction path using List.reverseRecOn generalizing id with
  | nil =>
    refine ⟨fun h => ⟨h, fun before passed hpart hne => ?_⟩, fun h => h.reached⟩
    exact absurd (List.prefix_nil.mp hpart) hne
  | append_singleton path index ih =>
    rw [at?_concat_eq_some_iff]
    simp only [ih, child?_eq_some_iff]
    constructor
    · rintro ⟨above, habove, node, hnode, hopen, hchild⟩
      refine ⟨(tree.follow?_concat_eq_some_iff path index id).mpr
        ⟨above, habove.reached, node, hnode, hchild⟩, ?_⟩
      intro before passed hpart hne hpassed
      have hshort := (List.prefix_concat_iff.mp hpart).resolve_left hne
      by_cases hlast : before = path
      · -- The last node that is passed is the one above the child.
        rw [hlast, habove.reached, Option.some.injEq] at hpassed
        rw [← hpassed, isSealed_iff hnode, hopen]
        exact Bool.false_ne_true
      · exact habove.passable before passed hshort hlast hpassed
    · intro h
      obtain ⟨above, habove, node, hnode, hchild⟩ :=
        (tree.follow?_concat_eq_some_iff path index id).mp h.reached
      have hopen := h.passable path above (List.prefix_append _ _) (by simp) habove
      rw [isSealed_iff hnode, Bool.not_eq_true] at hopen
      refine ⟨above, ⟨habove, fun before passed hpart hne => ?_⟩, node, hnode, hopen, hchild⟩
      refine h.passable before passed (hpart.trans (List.prefix_append _ _)) fun heq => ?_
      have hlength := hpart.length_le
      rw [heq, List.length_append, List.length_singleton] at hlength
      omega

end Tree

section Listing

variable {tree : Tree} {outline : Outline}

/-- Where the hosts of all outlines list their children, each of them does. -/
theorem Outline.listed_of_mem {source : Source} {outlines : List Outline}
    (h : Host.ListedAll (Outline.hosts source outlines)) {outline : Outline} (hmem : outline ∈ outlines) :
    (outline.host source).Listed := by
  induction outlines with
  | nil => cases hmem
  | cons first rest ih =>
    rw [Outline.hosts, Host.ListedAll] at h
    rcases List.mem_cons.mp hmem with rfl | hrest
    · exact h.1
    · exact ih h.2 hrest

/-- The root of an outline whose host lists all children is not sealed. -/
theorem Outline.Stored.not_isSealed {found : Outline} {id : Nat} {parent : Option Nat}
    (hstored : found.Stored tree.nodes id parent) (hlisted : (found.host tree.source).Listed) :
    ¬ tree.IsSealed id := by
  cases found with
  | node label children =>
    rw [Outline.host, Host.Listed] at hlisted
    obtain ⟨hwithheld, -⟩ := hlisted
    rw [Tree.isSealed_iff hstored.row_eq]
    intro hsealed
    change label.sealed = true at hsealed
    simp [Node.withheld, Label.row, hsealed] at hwithheld

namespace Outline.Fills

/-- A node below a stored outline whose host lists all children has such an outline itself. -/
theorem exists_listed_below (h : outline.Fills tree.nodes) {found : Outline} {id child : Nat}
    {parent : Option Nat} (hstored : found.Stored tree.nodes id parent)
    (hlisted : (found.host tree.source).Listed) (hbelow : Node.Below tree.nodes child id) :
    ∃ below : Outline, below.Stored tree.nodes child (some id) ∧ (below.host tree.source).Listed := by
  cases found with
  | node label children =>
    have hmem := (h.mem_children_iff hstored.row_eq).mpr hbelow
    obtain ⟨below, hchild, hbelow⟩ := hstored.children.exists_of_mem hmem
    rw [Outline.host, Host.Listed] at hlisted
    exact ⟨below, hbelow, Outline.listed_of_mem hlisted.2 hchild⟩

/-- The same holds all the way down from the outline, from one node to the one below it. -/
theorem exists_listed_of_ancestor (h : outline.Fills tree.nodes) {found : Outline} {id lower : Nat}
    {parent : Option Nat} (hstored : found.Stored tree.nodes id parent)
    (hlisted : (found.host tree.source).Listed)
    (hlower : lower = id ∨ Node.Ancestor tree.nodes id lower) :
    ∃ above, ∃ below : Outline, below.Stored tree.nodes lower above ∧
      (below.host tree.source).Listed := by
  rcases hlower with rfl | hancestor
  · exact ⟨parent, found, hstored, hlisted⟩
  · induction hancestor using Relation.TransGen.head_induction_on with
    | single hlink => exact ⟨_, h.exists_listed_below hstored hlisted hlink⟩
    | head hlink _ ih =>
      obtain ⟨above, middle, hmiddle, hopen⟩ := ih
      exact ⟨_, h.exists_listed_below hmiddle hopen hlink⟩

/-- The host of a stored outline lists all children exactly when no node at or below it is sealed. -/
theorem listed_iff_unsealed (h : outline.Fills tree.nodes) {found : Outline} {id : Nat}
    {parent : Option Nat} (hstored : found.Stored tree.nodes id parent) :
    (found.host tree.source).Listed ↔ tree.Unsealed id := by
  constructor
  · intro hlisted lower hlower
    obtain ⟨above, below, hbelow, hopen⟩ := h.exists_listed_of_ancestor hstored hlisted hlower
    exact hbelow.not_isSealed hopen
  · intro hopen
    refine found.listed_host tree.source id parent fun row hrow => ?_
    rw [← filterMap_range'_of_stored found tree.nodes id parent hstored] at hrow
    obtain ⟨number, hnumber, hat⟩ := List.mem_filterMap.mp hrow
    rw [List.mem_range'_1] at hnumber
    have hlower : number = id ∨ Node.Ancestor tree.nodes id number := by
      rw [Classical.or_iff_not_imp_left]
      intro hne
      exact Stored.ancestor found id number parent hstored (by omega) (by omega)
    have hnot := hopen number hlower
    rwa [Tree.isSealed_iff hat, Bool.not_eq_true] at hnot

end Outline.Fills

end Listing

section Refusing

variable {source : Source} {refusal : Refusal}

mutual

/-- Building the spans of an outline fails with no other refusal than that of children. -/
theorem Outline.refusal_of_build {outline : Outline}
    (h : SpanTree.build (outline.host source) = .error refusal) : refusal = .childrenUnavailable := by
  cases outline with
  | node label children =>
    rw [Outline.host, Node.withheld] at h
    split at h
    · rw [SpanTree.build] at h
      cases h
      rfl
    · rw [SpanTree.build] at h
      cases hchildren : SpanTree.buildAll (Outline.hosts source children) with
      | error found =>
        rw [hchildren] at h
        cases h
        exact Outline.refusal_of_buildAll hchildren
      | ok trees =>
        rw [hchildren] at h
        cases h

/-- Building the spans of a list of outlines fails with no other refusal than that of children. -/
theorem Outline.refusal_of_buildAll {outlines : List Outline}
    (h : SpanTree.buildAll (Outline.hosts source outlines) = .error refusal) :
    refusal = .childrenUnavailable := by
  cases outlines with
  | nil => cases h
  | cons outline rest =>
    rw [Outline.hosts, SpanTree.buildAll] at h
    cases hfirst : SpanTree.build (outline.host source) with
    | error found =>
      rw [hfirst] at h
      cases h
      exact Outline.refusal_of_build hfirst
    | ok tree =>
      cases hrest : SpanTree.buildAll (Outline.hosts source rest) with
      | error found =>
        rw [hfirst, hrest] at h
        cases h
        exact Outline.refusal_of_buildAll hrest
      | ok trees =>
        rw [hfirst, hrest] at h
        cases h

end

/-- A host that lists all children has a summary under every rule set. -/
theorem Host.exists_summary {host : Host} (hlisted : host.Listed) (text : String) (rules : Rules) :
    ∃ summary, host.summary text rules = .ok summary := by
  have hbuild := (SpanTree.build_eq_ok_iff host _).mpr ⟨hlisted, rfl⟩
  rw [summary, summaryWith_eq_nested, nestedSummaryWith, hbuild]
  exact ⟨_, rfl⟩

/-- The host of an outline that does not list all children is refused under every rule set. -/
theorem Outline.summary_of_not_listed {outline : Outline} (h : ¬ (outline.host source).Listed)
    (text : String) (rules : Rules) :
    (outline.host source).summary text rules = .error .childrenUnavailable := by
  cases hbuild : SpanTree.build (outline.host source) with
  | ok tree => exact absurd ((SpanTree.build_eq_ok_iff _ tree).mp hbuild).1 h
  | error refusal =>
    rw [Host.summary, Host.summaryWith_eq_nested, Host.nestedSummaryWith, hbuild,
      Outline.refusal_of_build hbuild]

end Refusing

namespace Tree

variable {tree : Tree} {path : List Nat} {id : Nat} {node : Node} {host : Host}

/-- The summary at a path is that of the node that it reaches, and a refusal is told with that node's
kind and range. -/
theorem summarizeAt_of_at? (hpath : tree.at? path = some id) (hnode : tree.nodes[id]? = some node)
    (hhost : tree.host? id = some host) (rules : Rules) :
    tree.summarizeAt path rules =
      (host.summary tree.source.text rules).mapError (.refused node.kind node.range) := by
  simp only [summarizeAt, hpath, hnode, hhost]
  cases host.summary tree.source.text rules <;> rfl

/-- How unlisted children are told. -/
theorem message_of_childrenUnavailable (kind : Kind) (range : Range) :
    (SummaryFault.refused kind range .childrenUnavailable).diagnostic.message =
      "cannot summarize " ++ kind.name ++ ": node children are unavailable" := by
  change "cannot summarize " ++ kind.name ++ ": " ++ "node children are unavailable" = _
  rw [String.append_assoc]
  rfl

/-- Without a node at the path there is no summary. -/
theorem summarizeAt_of_none (hpath : tree.at? path = none) (rules : Rules) :
    tree.summarizeAt path rules = .error (.noNode path) := by
  rw [summarizeAt, hpath]

end Tree

namespace Outline.Fills

variable {tree : Tree} {outline : Outline} {path : List Nat} {id : Nat} {node : Node}

/-- A path to a node without sealed nodes at or below it has the node's summary. -/
theorem summarizeAt_of_unsealed (h : outline.Fills tree.nodes) (hroot : tree.root = 0)
    (hleads : tree.Leads path id) (hopen : tree.Unsealed id) (rules : Rules) :
    ∃ host summary, tree.host? id = some host ∧ host.summary tree.source.text rules = .ok summary ∧
      tree.summarizeAt path rules = .ok summary := by
  have hpath := (tree.at?_eq_some_iff_leads path id).mpr hleads
  have hnode := Array.getElem?_eq_getElem (h.lt_size_of_at? hroot hpath)
  obtain ⟨found, hstored, -, hhost, -⟩ := h.exists_at hnode
  obtain ⟨summary, hsummary⟩ :=
    Host.exists_summary ((h.listed_iff_unsealed hstored).mpr hopen) tree.source.text rules
  refine ⟨_, summary, hhost, hsummary, ?_⟩
  rw [Tree.summarizeAt_of_at? hpath hnode hhost, hsummary]
  rfl

/-- A path to a node with a sealed node at or below it is refused. -/
theorem summarizeAt_of_sealed (h : outline.Fills tree.nodes) (hleads : tree.Leads path id)
    (hnode : tree.nodes[id]? = some node) (hsealed : ¬ tree.Unsealed id) (rules : Rules) :
    tree.summarizeAt path rules = .error (.refused node.kind node.range .childrenUnavailable) := by
  have hpath := (tree.at?_eq_some_iff_leads path id).mpr hleads
  obtain ⟨found, hstored, -, hhost, -⟩ := h.exists_at hnode
  have hrefused := Outline.summary_of_not_listed (mt (h.listed_iff_unsealed hstored).mp hsealed)
    tree.source.text rules
  rw [Tree.summarizeAt_of_at? hpath hnode hhost, hrefused]
  rfl

/-- A path has a summary exactly when it leads to a node without sealed nodes at or below it. -/
theorem summarizeAt_eq_ok_iff (h : outline.Fills tree.nodes) (hroot : tree.root = 0) (rules : Rules) :
    (∃ summary, tree.summarizeAt path rules = .ok summary) ↔
      ∃ id, tree.Leads path id ∧ tree.Unsealed id := by
  constructor
  · rintro ⟨summary, hsummary⟩
    cases hpath : tree.at? path with
    | none =>
      rw [Tree.summarizeAt_of_none hpath] at hsummary
      cases hsummary
    | some id =>
      have hleads := (tree.at?_eq_some_iff_leads path id).mp hpath
      refine ⟨id, hleads, ?_⟩
      by_contra hsealed
      have hnode := Array.getElem?_eq_getElem (h.lt_size_of_at? hroot hpath)
      rw [h.summarizeAt_of_sealed hleads hnode hsealed] at hsummary
      cases hsummary
  · rintro ⟨id, hleads, hopen⟩
    obtain ⟨-, summary, -, -, hsummary⟩ := h.summarizeAt_of_unsealed hroot hleads hopen rules
    exact ⟨summary, hsummary⟩

/-- A summary at a path is the summary of the node to which the path leads. -/
theorem exists_host_of_summarizeAt (h : outline.Fills tree.nodes) (hroot : tree.root = 0)
    {rules : Rules} {summary : String} (hsummary : tree.summarizeAt path rules = .ok summary) :
    ∃ id host, tree.Leads path id ∧ tree.host? id = some host ∧
      host.summary tree.source.text rules = .ok summary := by
  obtain ⟨id, hleads, hopen⟩ := (h.summarizeAt_eq_ok_iff hroot rules).mp ⟨summary, hsummary⟩
  obtain ⟨host, found, hhost, hfound, hat⟩ := h.summarizeAt_of_unsealed hroot hleads hopen rules
  rw [hsummary, Except.ok.injEq] at hat
  subst found
  exact ⟨id, host, hleads, hhost, hfound⟩

end Outline.Fills

/-- In a tree that is finished after any session, a path has a summary exactly when it leads to a node
without passing a sealed one and no node at or below that node is sealed. The rules have no part in this.
A summary that is there is the summary of the node; a sealed node at or below it is told with the node's
kind and range, and a path that leads nowhere as such. -/
theorem Builder.summarizeAt_ok_iff_unsealed {source : Source} {calls : List BuilderCall} {tree : Tree}
    (h : ((Builder.new source).session calls).finish = .ok tree) (path : List Nat) :
    (∀ rules, (∃ summary, tree.summarizeAt path rules = .ok summary) ↔
        ∃ id, tree.Leads path id ∧ tree.Unsealed id) ∧
      (∀ rules other, (∃ summary, tree.summarizeAt path rules = .ok summary) ↔
        ∃ summary, tree.summarizeAt path other = .ok summary) ∧
      (∀ rules summary, tree.summarizeAt path rules = .ok summary →
        ∃ id host, tree.Leads path id ∧ tree.host? id = some host ∧
          host.summary tree.source.text rules = .ok summary) ∧
      (∀ rules id node lower, tree.Leads path id → tree.nodes[id]? = some node →
        lower = id ∨ Node.Ancestor tree.nodes id lower → tree.IsSealed lower →
          ∃ fault, tree.summarizeAt path rules = .error fault ∧
            fault = .refused node.kind node.range .childrenUnavailable ∧
            fault.diagnostic.range = node.range ∧
            fault.diagnostic.message =
              "cannot summarize " ++ node.kind.name ++ ": node children are unavailable") ∧
      ∀ rules, (∀ id, ¬ tree.Leads path id) → tree.summarizeAt path rules = .error (.noNode path) := by
  obtain ⟨hroot, outline, hfills⟩ := Builder.exists_fills_of_session h
  refine ⟨hfills.summarizeAt_eq_ok_iff hroot, ?_,
    fun rules summary => hfills.exists_host_of_summarizeAt hroot, ?_, ?_⟩
  · intro rules other
    rw [hfills.summarizeAt_eq_ok_iff hroot, hfills.summarizeAt_eq_ok_iff hroot]
  · intro rules id node lower hleads hnode hlower hsealed
    have hnot : ¬ tree.Unsealed id := fun hopen => hopen lower hlower hsealed
    exact ⟨_, hfills.summarizeAt_of_sealed hleads hnode hnot rules, rfl, rfl,
      Tree.message_of_childrenUnavailable _ _⟩
  · intro rules hnone
    refine Tree.summarizeAt_of_none (Option.eq_none_iff_forall_ne_some.mpr fun id hpath => ?_) rules
    exact hnone id ((tree.at?_eq_some_iff_leads path id).mp hpath)

/-- Replacing lists does not help a block with a sealed one. The name behind the list has a summary, and
there is no way to the name in the list. -/
theorem Builder.summarizeAt_sealed_list :
    let tree := sealedListOutline.tree ⟨"a.ts", "ab"⟩
    let rules := Rules.empty.set .syntaxList (.replace "[]")
    ((Builder.new ⟨"a.ts", "ab"⟩).session sealedListCalls).finish = .ok tree ∧
      (∃ fault, tree.summarizeAt [] rules = .error fault ∧ fault.diagnostic.range = ⟨0, 2⟩ ∧
        fault.diagnostic.message = "cannot summarize Block: node children are unavailable") ∧
      (∃ summary, tree.summarizeAt [1] rules = .ok summary) ∧
      tree.summarizeAt [0, 0] rules = .error (.noNode [0, 0]) := by
  intro tree rules
  have hfinish := finish_sealedListCalls ⟨"a.ts", "ab"⟩
  have hfills : sealedListOutline.Fills tree.nodes := sealedListOutline.fills_rows
  refine ⟨hfinish, ?_, ?_, ?_⟩
  · obtain ⟨-, -, -, htold, -⟩ := Builder.summarizeAt_ok_iff_unsealed hfinish []
    have hbelow : Node.Below tree.nodes 1 0 := ⟨_, rfl, rfl⟩
    obtain ⟨fault, hfault, -, hrange, hmessage⟩ := htold rules 0 _ 1
      ((tree.at?_eq_some_iff_leads [] 0).mp rfl) rfl (Or.inr (Relation.TransGen.single hbelow))
      ⟨_, rfl, rfl⟩
    exact ⟨fault, hfault, hrange, hmessage⟩
  · obtain ⟨hiff, -⟩ := Builder.summarizeAt_ok_iff_unsealed hfinish [1]
    refine (hiff rules).mpr ⟨3, (tree.at?_eq_some_iff_leads [1] 3).mp rfl, ?_⟩
    rintro lower (rfl | hancestor)
    · rw [Tree.isSealed_iff rfl]
      exact Bool.false_ne_true
    · -- No number is behind that of the last node.
      obtain ⟨-, ⟨node, hnode, -⟩, -⟩ := Relation.TransGen.head'_iff.mp hancestor
      have hsize : lower < 4 := (Array.getElem?_eq_some_iff.mp hnode).1
      have hlater := hfills.lt_of_ancestor hancestor
      omega
  · obtain ⟨-, -, -, -, hnowhere⟩ := Builder.summarizeAt_ok_iff_unsealed hfinish [0, 0]
    refine hnowhere rules fun id hleads => ?_
    have hpath := (tree.at?_eq_some_iff_leads [0, 0] id).mpr hleads
    cases hpath

end Synopsis
