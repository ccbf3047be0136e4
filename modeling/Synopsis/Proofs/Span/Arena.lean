import Synopsis.Summary
import Synopsis.Proofs.Span.Tree
import Synopsis.Proofs.Span.Marks

/-!
# Arenas and nested trees

What is proved about spans is proved about nested trees. The table of a nested tree holds its spans in
pre-order. Pushing a host appends the table of its nested tree to whatever stands in the table already,
with the children entered in the parent's list one by one; going through the table visits the nested tree
in pre-order; and writing along the lists of children composes the nested tree. So an arena does what its
nested tree does.
-/

namespace Synopsis

namespace SpanTree

/-- A tree has as many spans as its size says. -/
theorem length_spansFrom (tree : SpanTree) (id : Nat) (parent : Option Nat) :
    (tree.spansFrom id parent).length = tree.size := by
  rw [← List.length_map (fun span : Span => span.id), map_id_spansFrom, List.length_range']

/-- The root of a tree is the first of its spans, and its range is that of the tree. -/
theorem exists_spansFrom_eq_cons (tree : SpanTree) (id : Nat) (parent : Option Nat) :
    ∃ root below, tree.spansFrom id parent = root :: below ∧ root.range = tree.range := by
  cases tree with
  | span node modification children =>
    rw [spansFrom]
    exact ⟨_, _, rfl, rfl⟩

/-- The number of a span is its place. -/
theorem id_of_getElem?_spans {tree : SpanTree} {index : Nat} {span : Span}
    (h : tree.spans[index]? = some span) : span.id = index := by
  have hid : (tree.spans.map (·.id))[index]? = some span.id := by
    rw [List.getElem?_map, h]
    rfl
  rw [map_id_spans] at hid
  obtain ⟨hlt, hvalue⟩ := List.getElem?_eq_some_iff.mp hid
  rw [List.getElem_range] at hvalue
  exact hvalue.symm

/-- There is a first span. -/
theorem size_toArray_spans_pos (tree : SpanTree) : 0 < tree.spans.toArray.size := by
  rw [List.size_toArray, spans, length_spansFrom]
  exact tree.size_pos

/-- In pre-order, children stand behind their parents. -/
theorem forward_spans (tree : SpanTree) : Span.Forward tree.spans.toArray := by
  intro id span hspan child hchild
  rw [List.getElem?_toArray] at hspan
  have hbounds := children_of_mem_spansFrom tree 0 none span (List.mem_of_getElem? hspan) child hchild
  rw [List.size_toArray, spans, length_spansFrom, ← id_of_getElem?_spans hspan]
  omega

/-- The arena with the spans of a tree in pre-order. -/
def arena (tree : SpanTree) : SpanArena where
  spans := tree.spans.toArray
  rooted := tree.size_toArray_spans_pos
  forward := tree.forward_spans

end SpanTree

namespace SpanArena

section Patching

variable {α : Type}

/-- Changing an element of the front of a table leaves the back as it is. -/
theorem modify_append_of_lt {front back : Array α} {id : Nat} (h : id < front.size) (f : α → α) :
    (front ++ back).modify id f = front.modify id f ++ back := by
  refine Array.ext_getElem? fun index => ?_
  rw [Array.getElem?_modify, Array.getElem?_append, Array.getElem?_append, Array.size_modify,
    Array.getElem?_modify]
  by_cases hid : id = index
  · subst hid
    rw [if_pos rfl, if_pos h, if_pos h, if_pos rfl]
  · rw [if_neg hid, if_neg hid]

/-- An element may be changed twice at once. -/
theorem modify_modify_self (table : Array α) (id : Nat) (f g : α → α) :
    (table.modify id f).modify id g = table.modify id fun element => g (f element) := by
  refine Array.ext_getElem? fun index => ?_
  simp only [Array.getElem?_modify]
  split
  · rw [Option.map_map]
    rfl
  · rfl

/-- Changing the last element. -/
theorem modify_push_size (table : Array α) (last : α) (f : α → α) :
    (table.push last).modify table.size f = table.push (f last) := by
  refine Array.ext_getElem? fun index => ?_
  rw [Array.getElem?_modify, Array.getElem?_push, Array.getElem?_push]
  by_cases hlast : index = table.size
  · rw [if_pos hlast, if_pos hlast, if_pos hlast.symm]
    rfl
  · rw [if_neg hlast, if_neg hlast, if_neg (Ne.symm hlast)]

end Patching

section Building

/-- A span with more children entered. -/
def entered (more : List Nat) (span : Span) : Span := { span with children := span.children ++ more }

/-- Children that are entered one by one are entered together. -/
theorem entered_entered (first second : List Nat) (span : Span) :
    entered second (entered first span) = entered (first ++ second) span := by
  rw [entered, entered, entered, List.append_assoc]

mutual

/-- Pushing a host appends the spans of its nested tree to the table. -/
theorem push_eq (host : Host) (table : Array Span) (parent : Option Nat) :
    push table parent host = (SpanTree.build host).map fun tree =>
      (table.size, table ++ (tree.spansFrom table.size parent).toArray) := by
  cases host with
  | node tag range text withheld offspring =>
    cases withheld with
    | some refusal =>
      rw [push, SpanTree.build]
      rfl
    | none =>
      have hlast : table.size < (add table (.node tag range text none offspring) parent).size := by
        rw [add, Array.size_push]
        exact Nat.lt_succ_self _
      rw [push, SpanTree.build, pushAll_eq offspring _ _ hlast]
      cases SpanTree.buildAll offspring with
      | error refusal => rfl
      | ok trees =>
        refine congrArg (fun after => Except.ok (table.size, after)) ?_
        dsimp only
        rw [SpanTree.spansFrom, add, modify_push_size, Array.size_push]
        exact Array.toList_inj.mp (by simp [entered])

/-- Pushing the children of a span appends the spans of their nested trees to the table and enters their roots
in the list of the span. -/
theorem pushAll_eq (hosts : List Host) (table : Array Span) (id : Nat) (hid : id < table.size) :
    pushAll table id hosts = (SpanTree.buildAll hosts).map fun trees =>
      table.modify id (entered (SpanTree.rootIds table.size trees)) ++
        (SpanTree.spansFromAll table.size id trees).toArray := by
  cases hosts with
  | nil =>
    have hsame : table.modify id (entered []) = table := by
      refine Array.ext_getElem? fun index => ?_
      rw [Array.getElem?_modify]
      split
      · cases table[index]? with
        | none => rfl
        | some span => simp [entered]
      · rfl
    refine congrArg Except.ok ?_
    dsimp only
    rw [SpanTree.rootIds, SpanTree.spansFromAll, hsame, Array.append_empty]
  | cons host hosts =>
    rw [pushAll, SpanTree.buildAll, push_eq host table (some id)]
    cases SpanTree.build host with
    | error refusal => rfl
    | ok tree =>
      have hfront : enter (table ++ (tree.spansFrom table.size (some id)).toArray) id table.size =
          table.modify id (entered [table.size]) ++ (tree.spansFrom table.size (some id)).toArray :=
        modify_append_of_lt hid _
      have hsize : (table.modify id (entered [table.size]) ++
          (tree.spansFrom table.size (some id)).toArray).size = table.size + tree.size := by
        simp [SpanTree.length_spansFrom]
      change pushAll (enter (table ++ (tree.spansFrom table.size (some id)).toArray) id table.size) id
        hosts = _
      rw [hfront, pushAll_eq hosts _ id (by omega), hsize]
      cases SpanTree.buildAll hosts with
      | error refusal => rfl
      | ok trees =>
        refine congrArg Except.ok ?_
        dsimp only
        rw [modify_append_of_lt (by rw [Array.size_modify]; exact hid), modify_modify_self,
          SpanTree.rootIds, SpanTree.spansFromAll]
        simp only [entered_entered, List.singleton_append]
        exact Array.toList_inj.mp (by simp)

end

/-- Building the arena of a host is building its nested tree. -/
theorem build_eq (host : Host) : build host = (SpanTree.build host).map SpanTree.arena := by
  have hpush := push_eq host #[] none
  cases hbuild : SpanTree.build host with
  | error found =>
    rw [hbuild] at hpush
    unfold build
    split
    · next refusal herror =>
      cases hpush.symm.trans herror
      rfl
    · next id spans hok => cases hpush.symm.trans hok
  | ok tree =>
    rw [hbuild] at hpush
    unfold build
    split
    · next refusal herror => cases hpush.symm.trans herror
    · next id spans hok =>
      cases hpush.symm.trans hok
      exact congrArg Except.ok (SpanArena.ext Array.empty_append)

end Building

section Visiting

variable {σ : Type} (visitor : σ → Span → σ × Modification)

/-- Spans in a row are visited one after the other. -/
theorem visitEach_append (left right : List Span) (state : σ) :
    visitEach visitor state (left ++ right) =
      ((visitEach visitor (visitEach visitor state left).1 right).1,
        (visitEach visitor state left).2 ++
          (visitEach visitor (visitEach visitor state left).1 right).2) := by
  induction left generalizing state with
  | nil => rfl
  | cons span left ih => simp only [List.cons_append, visitEach, ih]

mutual

/-- Going through the spans of a tree is visiting it. -/
theorem visitEach_spansFrom (tree : SpanTree) (id : Nat) (parent : Option Nat) (state : σ) :
    visitEach visitor state (tree.spansFrom id parent) =
      ((SpanTree.visitFrom visitor id parent state tree).1,
        (SpanTree.visitFrom visitor id parent state tree).2.spansFrom id parent) := by
  cases tree with
  | span node modification children =>
    rw [SpanTree.spansFrom, visitEach, visitEach_spansFromAll children (id + 1) id]
    simp only [SpanTree.visitFrom, SpanTree.spansFrom, SpanTree.rootIds_visitFromAll]

/-- Going through the spans of consecutive trees is visiting them. -/
theorem visitEach_spansFromAll (trees : List SpanTree) (next parent : Nat) (state : σ) :
    visitEach visitor state (SpanTree.spansFromAll next parent trees) =
      ((SpanTree.visitFromAll visitor next parent state trees).1,
        SpanTree.spansFromAll next parent (SpanTree.visitFromAll visitor next parent state trees).2) := by
  cases trees with
  | nil => rfl
  | cons tree trees =>
    rw [SpanTree.spansFromAll, visitEach_append, visitEach_spansFrom tree next (some parent),
      visitEach_spansFromAll trees (next + tree.size) parent]
    simp only [SpanTree.visitFromAll, SpanTree.spansFromAll, SpanTree.size_visitFrom]

end

/-- Going through the table of a tree is visiting the tree in pre-order. -/
theorem forEach_arena (tree : SpanTree) (state : σ) :
    tree.arena.forEach visitor state =
      ((tree.visit visitor state).1, (tree.visit visitor state).2.arena) := by
  have hvisit := visitEach_spansFrom visitor tree 0 none state
  refine Prod.ext ?_ (SpanArena.ext ?_)
  · change (visitEach visitor state tree.spans).1 = _
    rw [SpanTree.spans, hvisit]
    rfl
  · change (visitEach visitor state tree.spans).2.toArray = _
    rw [SpanTree.spans, hvisit]
    rfl

/-- Giving one span of a table a modification is giving it to the span of the tree with its number. -/
theorem set_arena (tree : SpanTree) (id : Nat) (modification : Modification) :
    tree.arena.set id modification = (tree.set id modification).arena := by
  refine SpanArena.ext (Array.ext_getElem? fun index => ?_)
  change (tree.spans.toArray.modify id _)[index]? = (tree.set id modification).spans.toArray[index]?
  rw [Array.getElem?_modify, List.getElem?_toArray, List.getElem?_toArray, SpanTree.set,
    SpanTree.spans_modify, List.getElem?_map]
  cases hspan : tree.spans[index]? with
  | none => rw [Option.map_none, ite_self, Option.map_none]
  | some span =>
    obtain rfl := SpanTree.id_of_getElem?_spans hspan
    by_cases hid : id = span.id
    · rw [if_pos hid, Option.map_some, Option.map_some, if_pos hid.symm]
    · rw [if_neg hid, Option.map_some, if_neg (Ne.symm hid)]

end Visiting

section Writing

variable (text : String)

/-- The first of the spans behind others has the number of the others as its place. -/
theorem getElem_of_toList_eq {spans : Array Span} {before after : List Span} {span : Span} {id : Nat}
    (h : spans.toList = before ++ span :: after) (hbefore : before.length = id) (hid : id < spans.size) :
    spans[id] = span := by
  subst hbefore
  have hfound : spans[before.length]? = some span := by
    rw [← Array.getElem?_toList, h, List.getElem?_append_right (Nat.le_refl _), Nat.sub_self]
    rfl
  rw [Array.getElem?_eq_getElem hid] at hfound
  exact Option.some.inj hfound

mutual

/-- Writing a span of an arena in which the spans of a tree stand in a row writes what the tree composes. -/
theorem writeSpan_eq (arena : SpanArena) (tree : SpanTree) (id : Nat) (parent : Option Nat)
    (before after : List Span) (hspans : arena.spans.toList = before ++ (tree.spansFrom id parent ++ after))
    (hbefore : before.length = id) (hid : id < arena.spans.size) (out : String) :
    arena.writeSpan text id hid out = out ++ tree.compose text := by
  cases tree with
  | span node modification children =>
    rw [SpanTree.spansFrom, List.cons_append] at hspans
    have hroot := getElem_of_toList_eq hspans hbefore hid
    have hbelow (skip : Bool) (hchildren) :
        arena.writeChildren text id skip node.range.stop (SpanTree.rootIds (id + 1) children) hchildren
            node.range.start out =
          out ++ SpanTree.stitch text skip node.range.start node.range.stop children := by
      refine writeChildren_eq arena children (id + 1) id (before ++ [arena.spans[id]]) after ?_ ?_ skip
        _ _ _ out
      · rw [hroot, hspans, List.append_assoc]
        rfl
      · rw [List.length_append, hbefore]
        rfl
    -- A span without children writes its slice, which is what stitching nothing gives.
    have hwritten (skip : Bool) (hchildren) :
        (if (SpanTree.rootIds (id + 1) children).isEmpty = true then
            out ++ Text.sliceOrEmpty text node.range.start node.range.stop
          else arena.writeChildren text id skip node.range.stop (SpanTree.rootIds (id + 1) children)
            hchildren node.range.start out) =
          out ++ SpanTree.stitch text skip node.range.start node.range.stop children := by
      cases children with
      | nil => rfl
      | cons tree trees => exact hbelow skip hchildren
    rw [writeSpan]
    simp only [hroot]
    cases modification with
    | skipAll => rw [SpanTree.compose, String.append_empty]
    | replace replacement => rw [SpanTree.compose]
    | keep =>
      rw [SpanTree.compose]
      exact hwritten false _
    | skipChildren =>
      rw [SpanTree.compose]
      exact hwritten true _

/-- Writing the children of a span writes what their nested trees are stitched to. -/
theorem writeChildren_eq (arena : SpanArena) (trees : List SpanTree) (next id : Nat)
    (before after : List Span)
    (hspans : arena.spans.toList = before ++ (SpanTree.spansFromAll next id trees ++ after))
    (hbefore : before.length = next) (skip : Bool) (cursor stop : Nat)
    (hchildren : ∀ child ∈ SpanTree.rootIds next trees, id < child ∧ child < arena.spans.size)
    (out : String) :
    arena.writeChildren text id skip stop (SpanTree.rootIds next trees) hchildren cursor out =
      out ++ SpanTree.stitch text skip cursor stop trees := by
  cases trees with
  | nil =>
    rw [SpanTree.stitch]
    exact writeChildren.eq_1 ..
  | cons tree trees =>
    rw [SpanTree.spansFromAll, List.append_assoc] at hspans
    obtain ⟨root, below, hroot, hrange⟩ := tree.exists_spansFrom_eq_cons next (some id)
    have hlt : next < arena.spans.size := (hchildren next List.mem_cons_self).2
    have hfirst : arena.spans[next].range = tree.range := by
      rw [hroot, List.cons_append] at hspans
      rw [getElem_of_toList_eq hspans hbefore hlt, hrange]
    have hrest (out : String) (hothers) :
        arena.writeChildren text id skip stop (SpanTree.rootIds (next + tree.size) trees) hothers
            tree.range.stop out =
          out ++ SpanTree.stitch text skip tree.range.stop stop trees := by
      refine writeChildren_eq arena trees (next + tree.size) id
        (before ++ tree.spansFrom next (some id)) after ?_ ?_ skip _ _ _ out
      · rw [hspans, List.append_assoc]
      · rw [List.length_append, hbefore, SpanTree.length_spansFrom]
    refine (writeChildren.eq_2 ..).trans ?_
    simp only [hfirst]
    rw [hrest, SpanTree.stitch]
    cases skip with
    | true => simp only [if_true, String.append_empty, String.append_assoc]
    | false =>
      simp only [Bool.false_eq_true, if_false]
      rw [writeSpan_eq arena tree next (some id) before _ hspans hbefore hlt]
      simp only [String.append_assoc]

end

/-- The arena of a tree writes the text of the tree. -/
theorem modifiedText_arena (tree : SpanTree) : tree.arena.modifiedText text = tree.modifiedText text := by
  have hspans : tree.arena.spans.toList = [] ++ (tree.spansFrom 0 none ++ []) := by
    rw [List.append_nil]
    rfl
  rw [modifiedText, SpanTree.modifiedText, writeSpan_eq text tree.arena tree 0 none [] [] hspans rfl,
    String.empty_append]

end Writing

end SpanArena

namespace Host

variable {σ : Type} (text : String) (rules : Rules) (visitor : σ → Span → σ × Modification)

/-- The state in which a visitor is left, and the summary of a node, from its nested tree. -/
def nestedSummaryWith (state : σ) (node : Host) : σ × Except Refusal String :=
  match SpanTree.build node with
  | .error refusal => (state, .error refusal)
  | .ok spans =>
    let visited := spans.visit
      (fun state span => visitor state { span with modification := rules.apply span }) state
    (visited.1, .ok (visited.2.modifiedText text))

/-- A summary is made from the arena as it would be from the nested tree. -/
theorem summaryWith_eq_nested (state : σ) (node : Host) :
    node.summaryWith text rules visitor state = node.nestedSummaryWith text rules visitor state := by
  rw [summaryWith, nestedSummaryWith, SpanArena.build_eq]
  cases SpanTree.build node with
  | error refusal => rfl
  | ok spans =>
    simp only [Except.map, SpanArena.forEach_arena, SpanArena.modifiedText_arena]

end Host

end Synopsis
