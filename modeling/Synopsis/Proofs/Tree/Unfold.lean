import Synopsis.Proofs.Tree.Outline

/-!
# Unfolding a table

Following the children lists of a table from a node on gives back what is stored there: the outline
itself, the numbers of its nodes in pre-order, and the host tree that summaries see. The depth to which
a table is followed only has to reach the number of nodes.
-/

namespace Synopsis

namespace Tree

/-- The outline of a node down to a given depth, if all nodes down there are in the table. -/
def outlineWithin (tree : Tree) : Nat → Nat → Option Outline
  | 0, _ => none
  | depth + 1, id => do
    let node ← tree.nodes[id]?
    let children ← node.children.mapM (tree.outlineWithin depth)
    return .node node.label children

/-- The outline of a node. -/
def outline? (tree : Tree) (id : Nat) : Option Outline := tree.outlineWithin tree.size id

/-- The numbers of a node and of all nodes below it in pre-order, down to a given depth and through
sealed nodes as well. -/
def walkWithin (tree : Tree) : Nat → Nat → List Nat
  | 0, _ => []
  | depth + 1, id =>
    match tree.nodes[id]? with
    | none => []
    | some node => id :: node.children.flatMap (tree.walkWithin depth)

/-- The numbers of a node and of all nodes below it in pre-order. -/
def walk (tree : Tree) (id : Nat) : List Nat := tree.walkWithin tree.size id

/-- The rows of a node and of all nodes below it in pre-order. -/
def rowsFrom (tree : Tree) (id : Nat) : List Node := (tree.walk id).filterMap (tree.nodes[·]?)

end Tree

namespace Outline

mutual

/-- The host tree of an outline over a source. -/
def host (source : Source) : Outline → Host
  | .node label children =>
    .node label.kind.ordinal label.range ((label.row none []).text source)
      (label.row none []).withheld (hosts source children)

/-- The host trees of a list of outlines over a source. -/
def hosts (source : Source) : List Outline → List Host
  | [] => []
  | outline :: rest => outline.host source :: hosts source rest

end

variable (tree : Tree)

mutual

/-- Following the table from a stored outline on gives the outline back. -/
theorem outlineWithin_of_stored (outline : Outline) (id depth : Nat) (parent : Option Nat)
    (hstored : outline.Stored tree.nodes id parent) (hdepth : outline.size ≤ depth) :
    tree.outlineWithin depth id = some outline := by
  cases outline with
  | node label children =>
    rw [size] at hdepth
    obtain ⟨depth, rfl⟩ : ∃ n, depth = n + 1 := ⟨depth - 1, by omega⟩
    rw [Tree.outlineWithin, hstored.row_eq]
    change ((rootIds (id + 1) children).mapM (tree.outlineWithin depth)).bind
      (fun below => some (Outline.node label below)) = _
    rw [mapM_outlineWithin_of_storedAll children (id + 1) id depth hstored.children (by omega)]
    rfl

/-- Following the table from consecutive stored outlines on gives the outlines back. -/
theorem mapM_outlineWithin_of_storedAll (outlines : List Outline) (next parent depth : Nat)
    (hstored : StoredAll tree.nodes next parent outlines) (hdepth : sizeAll outlines ≤ depth) :
    (rootIds next outlines).mapM (tree.outlineWithin depth) = some outlines := by
  cases outlines with
  | nil => rfl
  | cons outline rest =>
    obtain ⟨hfirst, hrest⟩ := hstored
    rw [sizeAll] at hdepth
    rw [rootIds, List.mapM_cons,
      outlineWithin_of_stored outline next depth (some parent) hfirst (by omega),
      mapM_outlineWithin_of_storedAll rest (next + outline.size) parent depth hrest (by omega)]
    rfl

end

mutual

/-- A stored outline is walked in the order of its numbers. -/
theorem walkWithin_of_stored (outline : Outline) (id depth : Nat) (parent : Option Nat)
    (hstored : outline.Stored tree.nodes id parent) (hdepth : outline.size ≤ depth) :
    tree.walkWithin depth id = List.range' id outline.size := by
  cases outline with
  | node label children =>
    rw [size] at hdepth ⊢
    obtain ⟨depth, rfl⟩ : ∃ n, depth = n + 1 := ⟨depth - 1, by omega⟩
    rw [Tree.walkWithin, hstored.row_eq, List.range'_succ]
    change id :: (rootIds (id + 1) children).flatMap (tree.walkWithin depth) = _
    rw [flatMap_walkWithin_of_storedAll children (id + 1) id depth hstored.children (by omega)]

/-- Consecutive stored outlines are walked in the order of their numbers. -/
theorem flatMap_walkWithin_of_storedAll (outlines : List Outline) (next parent depth : Nat)
    (hstored : StoredAll tree.nodes next parent outlines) (hdepth : sizeAll outlines ≤ depth) :
    (rootIds next outlines).flatMap (tree.walkWithin depth) = List.range' next (sizeAll outlines) := by
  cases outlines with
  | nil => rfl
  | cons outline rest =>
    obtain ⟨hfirst, hrest⟩ := hstored
    rw [sizeAll] at hdepth ⊢
    rw [rootIds, List.flatMap_cons,
      walkWithin_of_stored outline next depth (some parent) hfirst (by omega),
      flatMap_walkWithin_of_storedAll rest (next + outline.size) parent depth hrest (by omega),
      List.range'_append_1]

end

mutual

/-- The host tree of a node is that of the outline stored there. -/
theorem hostWithin_of_stored (outline : Outline) (id depth : Nat) (parent : Option Nat)
    (hstored : outline.Stored tree.nodes id parent) (hdepth : outline.size ≤ depth) :
    tree.hostWithin depth id = some (outline.host tree.source) := by
  cases outline with
  | node label children =>
    rw [size] at hdepth
    obtain ⟨depth, rfl⟩ : ∃ n, depth = n + 1 := ⟨depth - 1, by omega⟩
    rw [Tree.hostWithin, hstored.row_eq, host,
      ← filterMap_hostWithin_of_storedAll children (id + 1) id depth hstored.children (by omega)]
    rfl

/-- The host trees of consecutive nodes are those of the outlines stored there. -/
theorem filterMap_hostWithin_of_storedAll (outlines : List Outline) (next parent depth : Nat)
    (hstored : StoredAll tree.nodes next parent outlines) (hdepth : sizeAll outlines ≤ depth) :
    (rootIds next outlines).filterMap (tree.hostWithin depth) = hosts tree.source outlines := by
  cases outlines with
  | nil => rfl
  | cons outline rest =>
    obtain ⟨hfirst, hrest⟩ := hstored
    rw [sizeAll] at hdepth
    rw [rootIds, hosts, List.filterMap_cons_some
        (hostWithin_of_stored outline next depth (some parent) hfirst (by omega)),
      filterMap_hostWithin_of_storedAll rest (next + outline.size) parent depth hrest (by omega)]

end

mutual

/-- A table has the rows of a stored outline at the outline's numbers. -/
theorem filterMap_range'_of_stored (outline : Outline) (table : Array Node) (id : Nat)
    (parent : Option Nat) (hstored : outline.Stored table id parent) :
    (List.range' id outline.size).filterMap (table[·]?) = outline.rows id parent := by
  cases outline with
  | node label children =>
    rw [size, rows, List.range'_succ, List.filterMap_cons_some hstored.row_eq,
      filterMap_range'_of_storedAll children table (id + 1) id hstored.children]

/-- A table has the rows of consecutive stored outlines at their numbers. -/
theorem filterMap_range'_of_storedAll (outlines : List Outline) (table : Array Node)
    (next parent : Nat) (hstored : StoredAll table next parent outlines) :
    (List.range' next (sizeAll outlines)).filterMap (table[·]?) = rowsAll next parent outlines := by
  cases outlines with
  | nil => rfl
  | cons outline rest =>
    obtain ⟨hfirst, hrest⟩ := hstored
    rw [sizeAll, rowsAll, ← List.range'_append_1, List.filterMap_append,
      filterMap_range'_of_stored outline table next (some parent) hfirst,
      filterMap_range'_of_storedAll rest table (next + outline.size) parent hrest]

end

end Outline

end Synopsis
