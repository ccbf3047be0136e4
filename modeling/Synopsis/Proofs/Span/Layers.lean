import Mathlib.Logic.Relation
import Synopsis.Proofs.Span.Links
import Synopsis.Proofs.Span.Mirror

/-!
# Spans in their surroundings

What lies around a subtree of a span tree are the spans above it, each with the trees to the left and
to the right of the way down. Such a surrounding is a list of layers with the innermost first. Every
span is the root of a tree within layers: its ancestors are the spans of the layers, and the numbers at
and below it are the interval that the tree takes up.
-/

namespace Synopsis

/-- A span with a gap among its children. -/
structure Layer where
  node : Host
  modification : Modification
  left : List SpanTree
  right : List SpanTree

namespace Layer

/-- The span of a layer with a tree in its gap. -/
def wrap (layer : Layer) (tree : SpanTree) : SpanTree :=
  .span layer.node layer.modification (layer.left ++ tree :: layer.right)

/-- The number of the root of a tree within layers. -/
def number : List Layer → Nat
  | [] => 0
  | layer :: outer => number outer + 1 + SpanTree.sizeAll layer.left

/-- The numbers of the spans of layers, the innermost first. -/
def numbers : List Layer → List Nat
  | [] => []
  | _ :: outer => number outer :: numbers outer

/-- The spans of layers stand before what they surround. -/
theorem lt_number_of_mem_numbers {layers : List Layer} {upper : Nat} (h : upper ∈ numbers layers) :
    upper < number layers := by
  induction layers with
  | nil => contradiction
  | cons layer outer ih =>
    rw [numbers, List.mem_cons] at h
    rw [number]
    obtain rfl | h := h
    · omega
    · have := ih h
      omega

/-- A layer adds its own span and the trees around its gap. -/
theorem size_wrap (layer : Layer) (tree : SpanTree) :
    (layer.wrap tree).size =
      SpanTree.sizeAll layer.left + tree.size + SpanTree.sizeAll layer.right + 1 := by
  rw [wrap, SpanTree.size, SpanTree.sizeAll_append, SpanTree.sizeAll]
  omega

end Layer

namespace SpanTree

open Layer

/-- A tree within layers. -/
def within (tree : SpanTree) : List Layer → SpanTree
  | [] => tree
  | layer :: outer => (layer.wrap tree).within outer

mutual

/-- Every span of a tree within layers is the root of a tree within further layers. -/
theorem exists_within_of_mem_spansFrom (tree : SpanTree) (outer : List Layer) (span : Span)
    (h : span ∈ tree.spansFrom (number outer) (numbers outer).head?) :
    ∃ (sub : SpanTree) (layers : List Layer), sub.within layers = tree.within outer ∧
      span.id = number layers ∧ span.parent = (numbers layers).head? ∧ span.node = sub.node := by
  cases tree with
  | span node modification children =>
    rw [spansFrom, List.mem_cons] at h
    obtain rfl | h := h
    · exact ⟨.span node modification children, outer, rfl, rfl, rfl, rfl⟩
    · exact exists_within_of_mem_spansFromAll children node modification [] outer span h

/-- Every span of the last children of a span within layers is the root of a tree within further
layers. -/
theorem exists_within_of_mem_spansFromAll (trees : List SpanTree) (node : Host)
    (modification : Modification) (left : List SpanTree) (outer : List Layer) (span : Span)
    (h : span ∈ spansFromAll (number outer + 1 + sizeAll left) (number outer) trees) :
    ∃ (sub : SpanTree) (layers : List Layer),
      sub.within layers = (SpanTree.span node modification (left ++ trees)).within outer ∧
      span.id = number layers ∧ span.parent = (numbers layers).head? ∧ span.node = sub.node := by
  cases trees with
  | nil => contradiction
  | cons tree trees =>
    rw [spansFromAll, List.mem_append] at h
    obtain h | h := h
    · exact exists_within_of_mem_spansFrom tree (⟨node, modification, left, trees⟩ :: outer) span h
    · rw [List.append_cons]
      refine exists_within_of_mem_spansFromAll trees node modification (left ++ [tree]) outer span ?_
      rw [sizeAll_append, sizeAll, sizeAll, Nat.add_zero, ← Nat.add_assoc]
      exact h

end

/-- Every span of a tree is the root of a tree within layers. -/
theorem exists_within {tree : SpanTree} {span : Span} (h : span ∈ tree.spans) :
    ∃ (sub : SpanTree) (layers : List Layer), tree = sub.within layers ∧
      span.id = number layers ∧ span.parent = (numbers layers).head? ∧ span.node = sub.node := by
  obtain ⟨sub, layers, hwithin, hspan⟩ := exists_within_of_mem_spansFrom tree [] span h
  exact ⟨sub, layers, hwithin.symm, hspan⟩

/-- The spans of a layer are its own, those to the left, those in the gap and those to the right. -/
theorem mem_spansFrom_wrap_iff (layer : Layer) (tree : SpanTree) (id : Nat) (parent : Option Nat)
    (span : Span) :
    span ∈ (layer.wrap tree).spansFrom id parent ↔
      span = ⟨id, layer.node, layer.node.range, parent, rootIds (id + 1) (layer.left ++ tree :: layer.right),
        layer.modification⟩ ∨
      span ∈ spansFromAll (id + 1) id layer.left ∨
      span ∈ tree.spansFrom (id + 1 + sizeAll layer.left) (some id) ∨
      span ∈ spansFromAll (id + 1 + sizeAll layer.left + tree.size) id layer.right := by
  rw [wrap, spansFrom, spansFromAll_append, spansFromAll, List.mem_cons, List.mem_append,
    List.mem_append]

/-- The spans of a tree are among those of the tree within layers. -/
theorem mem_spans_within {tree : SpanTree} {layers : List Layer} {span : Span}
    (h : span ∈ tree.spansFrom (number layers) (numbers layers).head?) :
    span ∈ (tree.within layers).spans := by
  induction layers generalizing tree with
  | nil => exact h
  | cons layer outer ih =>
    rw [within]
    apply ih
    rw [mem_spansFrom_wrap_iff]
    exact Or.inr (Or.inr (Or.inl h))

/-- The other spans of a tree within layers have neither their number nor their parent in the interval
of the tree. -/
theorem outside_of_mem_spans_within {tree : SpanTree} {layers : List Layer} {span : Span}
    (h : span ∈ (tree.within layers).spans)
    (houter : span ∉ tree.spansFrom (number layers) (numbers layers).head?) (id : Nat)
    (hid : span.id = id ∨ span.parent = some id) :
    id < number layers ∨ number layers + tree.size ≤ id := by
  induction layers generalizing tree with
  | nil => exact absurd h houter
  | cons layer outer ih =>
    have hsize := layer.size_wrap tree
    by_cases hwrap : span ∈ (layer.wrap tree).spansFrom (number outer) (numbers outer).head?
    · rw [mem_spansFrom_wrap_iff] at hwrap
      rw [number]
      obtain rfl | hleft | hgap | hright := hwrap
      · obtain rfl | hparent := hid
        · dsimp only
          omega
        · have := lt_number_of_mem_numbers (List.mem_of_mem_head? (Option.mem_def.mpr hparent))
          omega
      · have hbounds := bounds_of_mem_spansFromAll hleft
        obtain rfl | hparent := hid
        · omega
        · obtain hup | ⟨upper, hup, -, hlt⟩ := parent_of_mem_spansFromAll _ _ _ span hleft
          all_goals
            have := Option.some.inj (hparent.symm.trans hup)
            omega
      · exact absurd hgap houter
      · have hbounds := bounds_of_mem_spansFromAll hright
        obtain rfl | hparent := hid
        · omega
        · obtain hup | ⟨upper, hup, hle, -⟩ := parent_of_mem_spansFromAll _ _ _ span hright
          all_goals
            have := Option.some.inj (hparent.symm.trans hup)
            omega
    · have := ih h hwrap
      rw [number]
      omega

/-- Whether the span with one number is directly below the span with another. -/
def Below (tree : SpanTree) (lower upper : Nat) : Prop :=
  ∃ span ∈ tree.spans, span.id = lower ∧ span.parent = some upper

/-- Whether the span with one number lies above the span with another, at any distance. -/
def Ancestor (tree : SpanTree) (upper lower : Nat) : Prop :=
  Relation.TransGen tree.Below lower upper

/-- Whether the span with one number is that with another or lies below it. -/
def AtOrBelow (tree : SpanTree) (lower upper : Nat) : Prop :=
  Relation.ReflTransGen tree.Below lower upper

/-- The root of a tree within layers is directly below the innermost layer. -/
theorem below_number_iff (tree : SpanTree) (layers : List Layer) (upper : Nat) :
    (tree.within layers).Below (number layers) upper ↔ (numbers layers).head? = some upper := by
  constructor
  · rintro ⟨span, hspan, hid, hparent⟩
    by_cases hmem : span ∈ tree.spansFrom (number layers) (numbers layers).head?
    · obtain ⟨-, hroot⟩ | ⟨above, -, hle, hlt⟩ := parent_of_mem_spansFrom tree _ _ span hmem
      · rw [← hroot, hparent]
      · omega
    · have hpos := tree.size_pos
      have := outside_of_mem_spans_within hspan hmem (number layers) (Or.inl hid)
      omega
  · intro hhead
    obtain ⟨root, hroot, hid, hparent⟩ := exists_root tree (number layers) (numbers layers).head?
    exact ⟨root, mem_spans_within hroot, hid, hparent.trans hhead⟩

/-- The ancestors of the root of a tree within layers are the spans of the layers. -/
theorem ancestor_number_iff (tree : SpanTree) (layers : List Layer) (upper : Nat) :
    (tree.within layers).Ancestor upper (number layers) ↔ upper ∈ numbers layers := by
  induction layers generalizing tree with
  | nil =>
    rw [Ancestor, Relation.TransGen.head'_iff]
    simp only [below_number_iff, numbers, List.head?_nil, reduceCtorEq, false_and, exists_false,
      List.not_mem_nil]
  | cons layer outer ih =>
    rw [Ancestor, Relation.TransGen.head'_iff]
    simp only [below_number_iff, numbers, List.head?_cons, Option.some.injEq, exists_eq_left',
      List.mem_cons]
    rw [Relation.reflTransGen_iff_eq_or_transGen, ← ih (layer.wrap tree)]
    rfl

/-- The numbers at and below the root of a tree within layers are those of the tree. -/
theorem atOrBelow_number_iff (tree : SpanTree) (layers : List Layer) (id : Nat) :
    (tree.within layers).AtOrBelow id (number layers) ↔
      number layers ≤ id ∧ id < number layers + tree.size := by
  constructor
  · intro h
    induction h using Relation.ReflTransGen.head_induction_on with
    | refl => exact ⟨Nat.le_refl _, Nat.lt_add_of_pos_right tree.size_pos⟩
    | head hbelow _ ih =>
      obtain ⟨span, hspan, rfl, hparent⟩ := hbelow
      by_cases hmem : span ∈ tree.spansFrom (number layers) (numbers layers).head?
      · exact bounds_of_mem_spansFrom hmem
      · have := outside_of_mem_spans_within hspan hmem _ (Or.inr hparent)
        omega
  · rintro ⟨hle, hlt⟩
    -- Parents have smaller numbers, so the way up ends at the root of the tree.
    induction id using Nat.strongRecOn with
    | ind id ih =>
      have hid : id ∈ (tree.spansFrom (number layers) (numbers layers).head?).map (·.id) := by
        rw [map_id_spansFrom, List.mem_range'_1]
        exact ⟨hle, hlt⟩
      obtain ⟨span, hspan, rfl⟩ := List.mem_map.mp hid
      obtain ⟨hroot, -⟩ | ⟨upper, hparent, hupper, hbefore⟩ :=
        parent_of_mem_spansFrom tree _ _ span hspan
      · rw [hroot]
        exact Relation.ReflTransGen.refl
      · exact Relation.ReflTransGen.head ⟨span, mem_spans_within hspan, rfl, hparent⟩
          (ih upper hbefore hupper (Nat.lt_trans hbefore hlt))

/-- The spans at and below the root of a tree within layers are those of the tree by itself, moved. -/
theorem mem_spans_atOrBelow_iff (tree : SpanTree) (layers : List Layer) (span : Span) :
    span ∈ (tree.within layers).spans ∧ (tree.within layers).AtOrBelow span.id (number layers) ↔
      ∃ part ∈ tree.spans, span = part.moved (number layers) (numbers layers).head? := by
  have hmoved := spansFrom_add (number layers) (numbers layers).head? tree 0 none
  rw [Option.map_none, Option.none_or, Nat.add_zero] at hmoved
  rw [atOrBelow_number_iff]
  constructor
  · rintro ⟨hspan, hle, hlt⟩
    by_cases hmem : span ∈ tree.spansFrom (number layers) (numbers layers).head?
    · rw [hmoved] at hmem
      obtain ⟨part, hpart, rfl⟩ := List.mem_map.mp hmem
      exact ⟨part, hpart, rfl⟩
    · have := outside_of_mem_spans_within hspan hmem span.id (Or.inl rfl)
      omega
  · rintro ⟨part, hpart, rfl⟩
    have hmem := List.mem_map_of_mem (f := Span.moved (number layers) (numbers layers).head?) hpart
    rw [spans, ← hmoved] at hmem
    exact ⟨mem_spans_within hmem, bounds_of_mem_spansFrom hmem⟩

/-- A tree within the layers of a built tree is what building its node gives. -/
theorem build_node_of_within (tree : SpanTree) (layers : List Layer) (host : Host)
    (hbuild : build host = .ok (tree.within layers)) : build tree.node = .ok tree := by
  induction layers generalizing tree with
  | nil =>
    obtain ⟨-, htree⟩ := (build_eq_ok_iff host tree).mp hbuild
    rw [htree, node_ofHost, ← htree]
    exact hbuild
  | cons layer outer ih =>
    obtain ⟨hlisted, hwrap⟩ := (build_eq_ok_iff _ _).mp (ih (layer.wrap tree) hbuild)
    change layer.node.Listed at hlisted
    change layer.wrap tree = ofHost layer.node at hwrap
    cases hnode : layer.node with
    | node tag range text withheld offspring =>
      rw [hnode, Host.Listed] at hlisted
      rw [hnode, wrap, ofHost, SpanTree.span.injEq] at hwrap
      have hmem : tree ∈ ofHosts offspring := by
        rw [← hwrap.2.2]
        exact List.mem_append_right _ List.mem_cons_self
      obtain ⟨inner, hinner, rfl⟩ := exists_of_mem_ofHosts hlisted.2 hmem
      rw [node_ofHost]
      exact (build_eq_ok_iff inner _).mpr ⟨hinner, rfl⟩

end SpanTree

end Synopsis
