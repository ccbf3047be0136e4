import Mathlib.Data.List.Chain
import Synopsis.Tree.Layout
import Synopsis.Proofs.Span.Plain
import Synopsis.Proofs.Tree.Links

/-!
# Placement of nodes without layout problems

In a tree without inverted ranges and layout problems the ends of the nodes below any node stand in
ascending order between its own ends, in the order in which composition meets them. The ends of a node
that is not synthetic are boundaries of the text. Nothing is known about the boundaries of synthetic
nodes.
-/

namespace Synopsis

namespace Node

/-- Where the next child may start: behind the sibling in front of it, or else with its parent. -/
def nextStart (parent : Node) : Option Node → Nat
  | some sibling => sibling.range.stop
  | none => parent.range.start

/-- A child without problems starts where it may, ends within its parent, and leaves none to the
children behind it. -/
theorem placed_of_childProblems {parent child : Node} {previous : Option Node} {rest : List Node}
    (h : parent.childProblems previous (child :: rest) = []) :
    parent.nextStart previous ≤ child.range.start ∧ child.range.stop ≤ parent.range.stop ∧
      parent.childProblems (some child) rest = [] := by
  simp only [childProblems, List.append_eq_nil_iff] at h
  obtain ⟨⟨hparent, hsibling⟩, hrest⟩ := h
  have hcontains : parent.range.contains child.range = true := by
    unfold parentProblems at hparent
    split at hparent
    · next hcontains => exact hcontains
    · contradiction
  simp only [Range.contains, decide_eq_true_eq] at hcontains
  refine ⟨?_, hcontains.2, hrest⟩
  cases previous with
  | none => exact hcontains.1
  | some sibling =>
    simp only [siblingProblems] at hsibling
    split at hsibling
    · contradiction
    · next hbehind => exact Nat.le_of_not_lt hbehind

/-- A child has no problem with its parent exactly when it lies within it. -/
theorem parentProblems_eq_nil_iff (parent child : Node) :
    parentProblems parent child = [] ↔ parent.range.contains child.range = true := by
  unfold parentProblems
  split
  · next hcontains => simp [hcontains]
  · next hcontains => simp [hcontains]

/-- A child has no problem with the sibling in front of it exactly when it starts behind it. -/
theorem siblingProblems_eq_nil_iff (sibling child : Node) :
    siblingProblems sibling child = [] ↔ sibling.range.stop ≤ child.range.start := by
  unfold siblingProblems
  split
  · next hoverlap => simp [hoverlap]
  · next hbehind => simpa using hbehind

/-- Children have no problems exactly when all of them lie within their parent and each starts behind
the one in front of it. -/
theorem childProblems_eq_nil_iff (parent : Node) (previous : Option Node) (children : List Node) :
    parent.childProblems previous children = [] ↔
      (∀ child ∈ children, parent.range.contains child.range = true) ∧
        (previous.toList ++ children).IsChain
          fun before after => before.range.stop ≤ after.range.start := by
  induction children generalizing previous with
  | nil => cases previous <;> simp [childProblems]
  | cons child rest ih =>
    simp only [childProblems, List.append_eq_nil_iff, ih, parentProblems_eq_nil_iff,
      List.forall_mem_cons]
    cases previous with
    | none => simp [and_assoc]
    | some sibling =>
      simp only [siblingProblems_eq_nil_iff, Option.toList_some, List.singleton_append,
        List.isChain_cons_cons]
      exact ⟨fun ⟨⟨hwithin, hbehind⟩, hrest, hchain⟩ => ⟨⟨hwithin, hrest⟩, hbehind, hchain⟩,
        fun ⟨⟨hwithin, hrest⟩, hbehind, hchain⟩ => ⟨⟨hwithin, hbehind⟩, hrest, hchain⟩⟩

/-- A node has no problem of its own exactly when it is synthetic or has a slice of the text. -/
theorem ownProblems_eq_nil_iff (source : Source) (node : Node) :
    node.ownProblems source = [] ↔
      (node.synthetic = false → (node.range.slice? source.text).isSome = true) := by
  unfold ownProblems
  split
  · next hslice =>
    rw [Bool.or_eq_true] at hslice
    simp only [true_iff]
    intro hmapped
    exact hslice.resolve_left (by simp [hmapped])
  · next hslice =>
    rw [Bool.or_eq_true, not_or] at hslice
    simp [hslice]

/-- The ends of a node without problems of its own are boundaries, unless it is synthetic. -/
theorem isBoundary_of_ownProblems {source : Source} {node : Node} (h : node.ownProblems source = [])
    (hmapped : node.synthetic = false) :
    Text.IsBoundary source.text node.range.start ∧ Text.IsBoundary source.text node.range.stop := by
  unfold ownProblems at h
  split at h
  · next hslice =>
    rw [hmapped, Bool.false_or] at hslice
    exact ((Text.slice?_isSome_iff _ _ _).mp hslice).2
  · contradiction

end Node

/-- Whether a tree has neither inverted ranges nor layout problems. -/
structure Tree.LaidOut (tree : Tree) : Prop where
  ordered : ∀ node ∈ tree.nodes, node.range.start ≤ node.range.stop
  problems_eq : tree.problems = []

namespace Tree.LaidOut

variable {tree : Tree} {id : Nat} {node : Node}

/-- No row of a laid-out tree has a problem. -/
theorem problemsAt_eq (h : tree.LaidOut) (hnode : tree.nodes[id]? = some node) :
    node.ownProblems tree.source = [] ∧
      node.childProblems none (node.children.filterMap (tree.nodes[·]?)) = [] := by
  have hproblems := List.flatMap_eq_nil_iff.mp h.problems_eq node
    (Array.mem_toList_iff.mpr (Array.mem_of_getElem? hnode))
  exact List.append_eq_nil_iff.mp hproblems

end Tree.LaidOut

namespace Outline

section Ascending

variable {tree : Tree}

mutual

/-- The ends of the nodes below a stored outline's root stand in ascending order within its range. -/
theorem ascending_of_stored (hlaid : tree.LaidOut) (outline : Outline) (id : Nat) (parent : Option Nat)
    (hstored : outline.Stored tree.nodes id parent) :
    Text.Ascending (outline.host tree.source).range.start (outline.host tree.source).range.stop
      (Host.cutsAll (outline.host tree.source).offspring) := by
  cases outline with
  | node label children =>
    rw [host]
    exact ascending_of_storedAll hlaid children (id + 1) id hstored.children _ none
      (hlaid.ordered _ (Array.mem_of_getElem? hstored.row_eq))
      (hlaid.problemsAt_eq hstored.row_eq).2

/-- The ends of the nodes of consecutive stored outlines stand in ascending order within the range of
their parent, behind the sibling in front of them. -/
theorem ascending_of_storedAll (hlaid : tree.LaidOut) (outlines : List Outline) (next number : Nat)
    (hstored : StoredAll tree.nodes next number outlines) (parent : Node) (previous : Option Node)
    (hle : parent.nextStart previous ≤ parent.range.stop)
    (hproblems : parent.childProblems previous
      ((rootIds next outlines).filterMap (tree.nodes[·]?)) = []) :
    Text.Ascending (parent.nextStart previous) parent.range.stop
      (Host.cutsAll (hosts tree.source outlines)) := by
  cases outlines with
  | nil => exact hle
  | cons outline rest =>
    obtain ⟨hfirst, hrest⟩ := hstored
    have hwithin := ascending_of_stored hlaid outline next (some number) hfirst
    cases outline with
    | node label children =>
      rw [rootIds, List.filterMap_cons_some hfirst.row_eq] at hproblems
      obtain ⟨hstart, hstop, hothers⟩ := Node.placed_of_childProblems hproblems
      have hbehind := ascending_of_storedAll hlaid rest _ number hrest parent
        (some (label.row (some number) (rootIds (next + 1) children))) hstop hothers
      rw [hosts, Host.cutsAll, host, Host.cuts, List.cons_append, List.append_assoc,
        List.singleton_append]
      exact ⟨hstart, (Text.ascending_append_cons _ _ _ _ _).mpr ⟨hwithin, hbehind⟩⟩

end

end Ascending

section Rows

variable (source : Source)

mutual

/-- Composition meets exactly the ends of an outline's rows. -/
theorem mem_cuts_host (outline : Outline) (id : Nat) (parent : Option Nat) (cut : Nat) :
    cut ∈ (outline.host source).cuts ↔
      ∃ row ∈ outline.rows id parent, cut = row.range.start ∨ cut = row.range.stop := by
  cases outline with
  | node label children =>
    rw [host, Host.cuts, rows, List.mem_cons, List.mem_append, List.mem_singleton,
      mem_cutsAll_hosts children (id + 1) id]
    simp only [List.mem_cons, or_and_right, exists_or, exists_eq_left]
    constructor
    · rintro (hstart | hbelow | hstop)
      · exact Or.inl (Or.inl hstart)
      · exact Or.inr hbelow
      · exact Or.inl (Or.inr hstop)
    · rintro ((hstart | hstop) | hbelow)
      · exact Or.inl hstart
      · exact Or.inr (Or.inr hstop)
      · exact Or.inr (Or.inl hbelow)

/-- Composition meets exactly the ends of the rows of a list of outlines. -/
theorem mem_cutsAll_hosts (outlines : List Outline) (next parent : Nat) (cut : Nat) :
    cut ∈ Host.cutsAll (hosts source outlines) ↔
      ∃ row ∈ rowsAll next parent outlines, cut = row.range.start ∨ cut = row.range.stop := by
  cases outlines with
  | nil => simp [hosts, Host.cutsAll, rowsAll]
  | cons outline rest =>
    rw [hosts, Host.cutsAll, rowsAll, List.mem_append, mem_cuts_host outline next (some parent),
      mem_cutsAll_hosts rest (next + outline.size) parent]
    simp only [List.mem_append, or_and_right, exists_or]

end

mutual

/-- A host tree lists all children if no row of its outline is sealed. -/
theorem listed_host (outline : Outline) (id : Nat) (parent : Option Nat)
    (h : ∀ row ∈ outline.rows id parent, row.sealed = false) : (outline.host source).Listed := by
  cases outline with
  | node label children =>
    rw [rows, List.forall_mem_cons] at h
    have hsealed : label.sealed = false := h.1
    rw [host, Host.Listed]
    refine ⟨?_, listedAll_hosts children (id + 1) id h.2⟩
    simp [Node.withheld, Label.row, hsealed]

/-- Host trees list all children if no row of their outlines is sealed. -/
theorem listedAll_hosts (outlines : List Outline) (next parent : Nat)
    (h : ∀ row ∈ rowsAll next parent outlines, row.sealed = false) :
    Host.ListedAll (hosts source outlines) := by
  cases outlines with
  | nil => trivial
  | cons outline rest =>
    rw [rowsAll, List.forall_mem_append] at h
    rw [hosts, Host.ListedAll]
    exact ⟨listed_host outline next (some parent) h.1, listedAll_hosts rest _ parent h.2⟩

end

end Rows

end Outline

end Synopsis
