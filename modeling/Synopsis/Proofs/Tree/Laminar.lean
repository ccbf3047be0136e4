import Mathlib.Data.List.Sort
import Mathlib.Logic.Relation
import Synopsis.Proofs.Tree.Arena
import Synopsis.Proofs.Tree.Placement

/-!
# Laminar layouts

The layout check compares each node with its children and each child with the sibling in front of it.
For the trees that a builder finishes this is enough for every pair of nodes: an ancestor contains its
descendants at any depth, and of two nodes that are not one above the other the first in pre-order ends
before the second starts. The ranges of all siblings, also the synthetic ones, have to be in order for
this, and the builder sees to that.
-/

namespace Synopsis

/-- What is contained in a contained range is contained. -/
theorem Range.contains_trans {outer middle inner : Range} (houter : outer.contains middle = true)
    (hinner : middle.contains inner = true) : outer.contains inner = true := by
  simp only [contains, decide_eq_true_eq] at houter hinner ⊢
  omega

namespace Node

/-- Whether a table has one number above another, at any distance. -/
def Ancestor (table : Array Node) (upper lower : Nat) : Prop :=
  Relation.TransGen (Below table) lower upper

/-- A number has at most one parent. -/
theorem Below.unique {table : Array Node} {lower first second : Nat} (hfirst : Below table lower first)
    (hsecond : Below table lower second) : first = second := by
  obtain ⟨node, hnode, hparent⟩ := hfirst
  obtain ⟨other, hother, hparent'⟩ := hsecond
  rw [hnode, Option.some.injEq] at hother
  subst other
  rw [hparent, Option.some.injEq] at hparent'
  exact hparent'

end Node

/-- Whether the ranges of a tree are laminar over its text: nodes with source text have a slice,
ancestors contain their descendants, and of two other nodes the first in pre-order ends before the
second starts. -/
structure Tree.Laminar (tree : Tree) : Prop where
  mapped : ∀ node ∈ tree.nodes, node.synthetic = false →
    (node.range.slice? tree.source.text).isSome = true
  nested : ∀ upper lower above below, Node.Ancestor tree.nodes upper lower →
    tree.nodes[upper]? = some above → tree.nodes[lower]? = some below →
      above.range.contains below.range = true
  apart : ∀ first second before after, [first, second].Sublist (tree.walk tree.root) →
    ¬ Node.Ancestor tree.nodes first second → ¬ Node.Ancestor tree.nodes second first →
    tree.nodes[first]? = some before → tree.nodes[second]? = some after →
      before.range.stop ≤ after.range.start

namespace Outline

section Ancestors

variable {table : Array Node}

mutual

/-- The root of a stored outline is an ancestor of all its other numbers. -/
theorem Stored.ancestor (outline : Outline) (id target : Nat) (parent : Option Nat)
    (h : outline.Stored table id parent) (hfirst : id < target) (hlast : target < id + outline.size) :
    Node.Ancestor table id target := by
  cases outline with
  | node label children =>
    rw [size] at hlast
    exact StoredAll.ancestor children (id + 1) id target h.children (by omega) (by omega)

/-- The parent of consecutive stored outlines is an ancestor of all their numbers. -/
theorem StoredAll.ancestor (outlines : List Outline) (next parent target : Nat)
    (h : StoredAll table next parent outlines) (hfirst : next ≤ target)
    (hlast : target < next + sizeAll outlines) : Node.Ancestor table parent target := by
  cases outlines with
  | nil =>
    rw [sizeAll] at hlast
    omega
  | cons outline rest =>
    obtain ⟨hhead, htail⟩ := h
    rw [sizeAll] at hlast
    obtain ⟨row, hrow, -, hparent, -⟩ := hhead.row
    have hlink : Node.Below table next parent := ⟨row, hrow, hparent⟩
    by_cases hroot : target = next
    · subst target
      exact Relation.TransGen.single hlink
    · by_cases hin : target < next + outline.size
      · have hbelow := Stored.ancestor outline next target (some parent) hhead (by omega) hin
        exact Relation.TransGen.tail hbelow hlink
      · exact StoredAll.ancestor rest (next + outline.size) parent target htail (by omega) (by omega)

end

namespace Fills

variable {outline : Outline}

/-- A parent comes before its children. -/
theorem lt_of_below (h : outline.Fills table) {lower upper : Nat}
    (hlink : Node.Below table lower upper) : upper < lower := by
  obtain ⟨node, hnode, hparent⟩ := hlink
  obtain ⟨-, -, ⟨-, hnone⟩ | ⟨number, -, hlt, hnumber, -⟩⟩ := h.locate hnode
  · rw [hparent] at hnone
    contradiction
  · rw [hparent, Option.some.injEq] at hnumber
    omega

/-- An ancestor comes before its descendants. -/
theorem lt_of_ancestor (h : outline.Fills table) {upper lower : Nat}
    (hancestor : Node.Ancestor table upper lower) : upper < lower := by
  induction hancestor with
  | single hlink => exact h.lt_of_below hlink
  | tail _ hlink ih => exact Nat.lt_trans (h.lt_of_below hlink) ih

/-- A child is no ancestor of another child of the same row. -/
theorem not_ancestor_of_siblings (h : outline.Fills table) {parent first second : Nat}
    (hfirst : Node.Below table first parent) (hsecond : Node.Below table second parent) :
    ¬ Node.Ancestor table first second := by
  intro hancestor
  have hlt := h.lt_of_below hfirst
  obtain ⟨above, hlink, hrest⟩ := Relation.TransGen.head'_iff.mp hancestor
  obtain rfl := hlink.unique hsecond
  rcases Relation.reflTransGen_iff_eq_or_transGen.mp hrest with heq | hlonger
  · omega
  · have hback := h.lt_of_ancestor hlonger
    omega

end Fills

end Ancestors

end Outline

namespace Tree.LaidOut

variable {tree : Tree} {outline : Outline}

/-- A node of a laid-out tree contains its children. -/
theorem contains_of_below (hlaid : tree.LaidOut) (hfills : outline.Fills tree.nodes) {upper lower : Nat}
    {above below : Node} (hlink : Node.Below tree.nodes lower upper)
    (habove : tree.nodes[upper]? = some above) (hbelow : tree.nodes[lower]? = some below) :
    above.range.contains below.range = true := by
  have hchild : lower ∈ above.children := (hfills.mem_children_iff habove).mpr hlink
  have hwithin := ((Node.childProblems_eq_nil_iff _ _ _).mp (hlaid.problemsAt_eq habove).2).1
  exact hwithin below (List.mem_filterMap.mpr ⟨lower, hchild, hbelow⟩)

/-- A node of a laid-out tree contains its descendants. -/
theorem contains_of_ancestor (hlaid : tree.LaidOut) (hfills : outline.Fills tree.nodes)
    {upper lower : Nat} {above below : Node} (hancestor : Node.Ancestor tree.nodes upper lower)
    (habove : tree.nodes[upper]? = some above) (hbelow : tree.nodes[lower]? = some below) :
    above.range.contains below.range = true := by
  induction hancestor generalizing above with
  | single hlink => exact hlaid.contains_of_below hfills hlink habove hbelow
  | tail _ hlink ih =>
    have ⟨middle, hmiddle, _⟩ := hlink
    exact Range.contains_trans (hlaid.contains_of_below hfills hlink habove hmiddle) (ih hmiddle)

/-- Nothing at or below consecutive children starts before the first of them may. -/
theorem nextStart_le (hlaid : tree.LaidOut) (hfills : outline.Fills tree.nodes)
    (outlines : List Outline) (next number : Nat)
    (hstored : Outline.StoredAll tree.nodes next number outlines) (parent : Node)
    (previous : Option Node)
    (hproblems : parent.childProblems previous
      ((Outline.rootIds next outlines).filterMap (tree.nodes[·]?)) = [])
    (target : Nat) (hfirst : next ≤ target) (hlast : target < next + Outline.sizeAll outlines)
    {row : Node} (hrow : tree.nodes[target]? = some row) :
    parent.nextStart previous ≤ row.range.start := by
  induction outlines generalizing next previous with
  | nil =>
    rw [Outline.sizeAll] at hlast
    omega
  | cons first rest ih =>
    obtain ⟨hhead, htail⟩ := hstored
    rw [Outline.sizeAll] at hlast
    obtain ⟨head, hheadRow, -, -, -⟩ := hhead.row
    rw [Outline.rootIds, List.filterMap_cons_some hheadRow] at hproblems
    obtain ⟨hstart, -, hothers⟩ := Node.placed_of_childProblems hproblems
    by_cases hin : target < next + first.size
    · by_cases hroot : target = next
      · subst target
        rw [hheadRow, Option.some.injEq] at hrow
        subst row
        exact hstart
      · have hancestor := Outline.Stored.ancestor first next target _ hhead (by omega) hin
        have hcontains := hlaid.contains_of_ancestor hfills hancestor hheadRow hrow
        simp only [Range.contains, decide_eq_true_eq] at hcontains
        exact Nat.le_trans hstart hcontains.1
    · have hbehind : head.range.stop ≤ row.range.start :=
        ih (next + first.size) htail (some head) hothers (by omega) (by omega)
      have hordered := hlaid.ordered head (Array.mem_of_getElem? hheadRow)
      omega

mutual

/-- Of two numbers of a stored outline the smaller one is an ancestor, or its range comes first. -/
theorem ancestor_or_apart (hlaid : tree.LaidOut) (hfills : outline.Fills tree.nodes)
    (stored : Outline) (id : Nat) (parent : Option Nat) (hstored : stored.Stored tree.nodes id parent)
    {first second : Nat} {before after : Node} (hfirst : id ≤ first) (horder : first < second)
    (hsecond : second < id + stored.size) (hbefore : tree.nodes[first]? = some before)
    (hafter : tree.nodes[second]? = some after) :
    Node.Ancestor tree.nodes first second ∨ before.range.stop ≤ after.range.start := by
  by_cases hroot : first = id
  · subst first
    exact Or.inl (Outline.Stored.ancestor stored id second parent hstored horder hsecond)
  · cases stored with
    | node label children =>
      rw [Outline.size] at hsecond
      exact ancestor_or_apart_all hlaid hfills children (id + 1) id hstored.children _ none
        (hlaid.problemsAt_eq hstored.row_eq).2 (by omega) horder (by omega) hbefore hafter

/-- Of two numbers of consecutive stored outlines the smaller one is an ancestor, or its range comes
first. -/
theorem ancestor_or_apart_all (hlaid : tree.LaidOut) (hfills : outline.Fills tree.nodes)
    (outlines : List Outline) (next number : Nat)
    (hstored : Outline.StoredAll tree.nodes next number outlines) (parent : Node)
    (previous : Option Node)
    (hproblems : parent.childProblems previous
      ((Outline.rootIds next outlines).filterMap (tree.nodes[·]?)) = [])
    {first second : Nat} {before after : Node} (hfirst : next ≤ first) (horder : first < second)
    (hsecond : second < next + Outline.sizeAll outlines) (hbefore : tree.nodes[first]? = some before)
    (hafter : tree.nodes[second]? = some after) :
    Node.Ancestor tree.nodes first second ∨ before.range.stop ≤ after.range.start := by
  cases outlines with
  | nil =>
    rw [Outline.sizeAll] at hsecond
    omega
  | cons stored rest =>
    obtain ⟨hhead, htail⟩ := hstored
    rw [Outline.sizeAll] at hsecond
    obtain ⟨head, hheadRow, -, -, -⟩ := hhead.row
    rw [Outline.rootIds, List.filterMap_cons_some hheadRow] at hproblems
    obtain ⟨-, -, hothers⟩ := Node.placed_of_childProblems hproblems
    by_cases hsecondIn : second < next + stored.size
    · exact ancestor_or_apart hlaid hfills stored next (some number) hhead hfirst horder hsecondIn
        hbefore hafter
    · by_cases hfirstIn : first < next + stored.size
      · right
        -- The head of the list separates the two: the first ends in it, the second starts behind it.
        have hbehind : head.range.stop ≤ after.range.start :=
          hlaid.nextStart_le hfills rest _ number htail parent (some head) hothers second (by omega)
            (by omega) hafter
        by_cases hroot : first = next
        · subst first
          rw [hheadRow, Option.some.injEq] at hbefore
          subst before
          exact hbehind
        · have hancestor := Outline.Stored.ancestor stored next first _ hhead (by omega) hfirstIn
          have hcontains := hlaid.contains_of_ancestor hfills hancestor hheadRow hbefore
          simp only [Range.contains, decide_eq_true_eq] at hcontains
          exact Nat.le_trans hcontains.2 hbehind
      · exact ancestor_or_apart_all hlaid hfills rest (next + stored.size) number htail parent
          (some head) hothers (by omega) horder (by omega) hbefore hafter

end

end Tree.LaidOut

/-- One number comes before another in an ascending count exactly when it is smaller. -/
theorem pair_sublist_range_iff (first second size : Nat) :
    [first, second].Sublist (List.range size) ↔ first < second ∧ second < size := by
  constructor
  · intro h
    have hpair := List.Pairwise.sublist h List.pairwise_lt_range
    have hmem : second ∈ List.range size := h.subset (by simp)
    exact ⟨by simpa using hpair, List.mem_range.mp hmem⟩
  · rintro ⟨horder, hsize⟩
    refine List.sublist_of_subperm_of_pairwise (r := (· < ·)) ?_ (by simpa using horder)
      List.pairwise_lt_range
    refine List.subperm_of_subset (by simp; omega) ?_
    intro id hid
    simp only [List.mem_cons, List.not_mem_nil, or_false] at hid
    rw [List.mem_range]
    omega

/-- The nodes of a laid-out tree that is walked in the order of its numbers are laminar. -/
theorem Tree.LaidOut.laminar {tree : Tree} {outline : Outline} (hlaid : tree.LaidOut)
    (hfills : outline.Fills tree.nodes) (hwalk : tree.walk tree.root = List.range tree.size) :
    tree.Laminar where
  mapped := by
    intro node hnode
    obtain ⟨id, hid⟩ := Array.mem_iff_getElem?.mp hnode
    exact (Node.ownProblems_eq_nil_iff _ _).mp (hlaid.problemsAt_eq hid).1
  nested := fun _ _ _ _ hancestor habove hbelow =>
    hlaid.contains_of_ancestor hfills hancestor habove hbelow
  apart := by
    intro first second before after hwalked hnot _ hbefore hafter
    rw [hwalk, pair_sublist_range_iff] at hwalked
    have hsize : second < 0 + outline.size := by
      rw [Nat.zero_add, ← hfills.size_eq]
      exact hwalked.2
    exact (hlaid.ancestor_or_apart hfills outline 0 none hfills.stored (Nat.zero_le _) hwalked.1 hsize
      hbefore hafter).resolve_left hnot

/-- A laminar tree that is walked in the order of its numbers has no layout problems. -/
theorem Tree.Laminar.problems_eq {tree : Tree} {outline : Outline} (h : tree.Laminar)
    (hfills : outline.Fills tree.nodes) (hwalk : tree.walk tree.root = List.range tree.size) :
    tree.problems = [] := by
  refine List.flatMap_eq_nil_iff.mpr fun node hnode => ?_
  rw [Array.mem_toList_iff] at hnode
  obtain ⟨id, hid⟩ := Array.mem_iff_getElem?.mp hnode
  have hlink : ∀ child ∈ node.children, Node.Below tree.nodes child id :=
    fun child hchild => (hfills.mem_children_iff hid).mp hchild
  refine List.append_eq_nil_iff.mpr ⟨(Node.ownProblems_eq_nil_iff _ _).mpr (h.mapped node hnode),
    (Node.childProblems_eq_nil_iff _ _ _).mpr ⟨?_, ?_⟩⟩
  · intro row hrow
    obtain ⟨child, hchild, hchildRow⟩ := List.mem_filterMap.mp hrow
    exact h.nested id child node row (Relation.TransGen.single (hlink child hchild)) hid hchildRow
  · rw [Option.toList_none, List.nil_append]
    refine (List.pairwise_filterMap.mpr ?_).isChain
    refine (hfills.children_ascending hid).imp_of_mem ?_
    intro first second hfirst hsecond horder before hbefore after hafter
    have hfirst := hlink first hfirst
    have hsecond := hlink second hsecond
    obtain ⟨hsize, -⟩ := Array.getElem?_eq_some_iff.mp hafter
    refine h.apart first second before after ?_ (hfills.not_ancestor_of_siblings hfirst hsecond)
      (hfills.not_ancestor_of_siblings hsecond hfirst) hbefore hafter
    rw [hwalk, pair_sublist_range_iff]
    exact ⟨horder, hsize⟩

/-- A tree that is finished after any session, misused calls included, passes the layout check exactly
when its ranges are laminar. -/
theorem Builder.validate_eq_nil_iff_laminar (source : Source) (calls : List BuilderCall) (tree : Tree)
    (hfinish : ((Builder.new source).session calls).finish = .ok tree) :
    tree.validate = [] ↔ tree.Laminar := by
  have hordered := (rangesOrdered_new source).session calls
  rw [RangesOrdered, ← nodes_of_finish hfinish] at hordered
  obtain ⟨outline, rfl⟩ := Draft.exists_tree_of_session hfinish
  have hfills : outline.Fills (outline.tree source).nodes := outline.fills_rows
  have hwalk := outline.walkWithin_tree source _ (Nat.le_refl _)
  rw [Tree.validate, List.map_eq_nil_iff]
  exact ⟨fun hproblems => Tree.LaidOut.laminar ⟨hordered, hproblems⟩ hfills hwalk,
    fun hlaminar => hlaminar.problems_eq hfills hwalk⟩

/-- A session in which an end is refused leaves an empty node between its siblings and is laminar, and
one in which a token starts before the sibling in front of it ends is not. -/
theorem Builder.laminar_refused_end :
    let refused : List BuilderCall :=
      [.startNode .block 0, .token .openBraceToken 0 1, .startNode .syntaxList 2, .finishNode 1,
        .synthetic .identifier 2, .token .closeBraceToken 2 3, .finishNode 3]
    let overlapping : List BuilderCall :=
      [.startNode .block 0, .token .openBraceToken 0 2, .token .closeBraceToken 1 3, .finishNode 3]
    (∃ tree, ((Builder.new ⟨"a.ts", "{ }"⟩).session refused).finish = .ok tree ∧ tree.size = 5 ∧
        tree.Laminar) ∧
      ∃ tree, ((Builder.new ⟨"a.ts", "{ }"⟩).session overlapping).finish = .ok tree ∧ tree.size = 3 ∧
        ¬ tree.Laminar := by
  intro refused overlapping
  constructor
  · obtain ⟨tree, hfinish, hsize, hvalidate⟩ : ∃ tree,
        ((Builder.new ⟨"a.ts", "{ }"⟩).session refused).finish = .ok tree ∧ tree.size = 5 ∧
          tree.validate = [] := ⟨_, rfl, rfl, by decide⟩
    exact ⟨tree, hfinish, hsize, (validate_eq_nil_iff_laminar _ _ tree hfinish).mp hvalidate⟩
  · obtain ⟨tree, hfinish, hsize, hvalidate⟩ : ∃ tree,
        ((Builder.new ⟨"a.ts", "{ }"⟩).session overlapping).finish = .ok tree ∧ tree.size = 3 ∧
          tree.validate.length = 1 := ⟨_, rfl, rfl, by decide⟩
    refine ⟨tree, hfinish, hsize, fun hlaminar => ?_⟩
    rw [(validate_eq_nil_iff_laminar _ _ tree hfinish).mpr hlaminar] at hvalidate
    contradiction

end Synopsis
