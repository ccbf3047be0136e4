import Synopsis.TreeFile.Reading
import Synopsis.Proofs.Numbering
import Synopsis.Proofs.Tree.Placement
import Synopsis.Proofs.TreeFile.Entries

/-!
# What loading accepts and gives

Loading checks the entries, builds their nodes one by one and checks the layout of the finished table.
Together the three passes accept a file exactly when every entry has a known kind and its ends in order,
covers a slice of the text unless it is synthetic, contains its children and keeps them apart, and none
of them can go wrong on a file that an earlier one has passed. The table of an accepted file has the
entries in pre-order, one row for each.
-/

namespace Synopsis

namespace Range

/-- A value brought between two bounds, which have to be in order. -/
def clampBetween? (value low high : Nat) : Option Nat :=
  if low ≤ high then some (max low (min value high)) else none

/-- A range brought into a text of a given length by way of bounds that are checked. -/
def clampChecked? (range : Range) (length : Nat) : Option Range := do
  let start := min (min range.start range.stop) length
  let stop ← clampBetween? (max range.stop range.start) start length
  return ⟨start, stop⟩

/-- The bounds between which an end of a range is brought are always in order. -/
theorem clampChecked?_eq (range : Range) (length : Nat) :
    range.clampChecked? length = some (range.clampTo length) := by
  have hle : min (min range.start range.stop) length ≤ length := Nat.min_le_right _ _
  have hstop : max (min (min range.start range.stop) length) (min (max range.stop range.start) length) =
      min (max range.stop range.start) length := by omega
  simp only [clampChecked?, clampBetween?, if_pos hle, hstop, clampTo]
  rfl

/-- Ranges whose ends are in order follow one another exactly when each precedes all later ones. -/
theorem isChain_iff_pairwise {ranges : List Range} (h : ∀ range ∈ ranges, range.start ≤ range.stop) :
    (ranges.IsChain fun before after => before.stop ≤ after.start) ↔
      ranges.Pairwise fun before after => before.stop ≤ after.start := by
  refine ⟨fun hchain => ?_, List.Pairwise.isChain⟩
  induction ranges with
  | nil => exact List.Pairwise.nil
  | cons first rest ih =>
    obtain ⟨-, hrest⟩ := List.forall_mem_cons.mp h
    have hpairwise := ih hrest hchain.tail
    refine List.Pairwise.cons ?_ hpairwise
    cases rest with
    | nil => simp
    | cons second others =>
      have hfirst : first.stop ≤ second.start := (List.isChain_cons_cons.mp hchain).1
      have hsecond : second.start ≤ second.stop := hrest second List.mem_cons_self
      intro later hlater
      rcases List.mem_cons.mp hlater with rfl | hothers
      · exact hfirst
      · have hbehind := (List.pairwise_cons.mp hpairwise).1 later hothers
        omega

end Range

namespace Outline

/-- The roots of consecutive outlines are numbered by their sizes. -/
theorem rootIds_eq_blockStarts (next : Nat) (outlines : List Outline) :
    rootIds next outlines = blockStarts next (outlines.map size) := by
  induction outlines generalizing next with
  | nil => rfl
  | cons outline rest ih => rw [rootIds, List.map_cons, blockStarts_cons, ih]

/-- The rows of the roots of consecutive stored outlines have their ranges. -/
theorem StoredAll.map_range {table : Array Node} {next parent : Nat} {outlines : List Outline}
    (h : StoredAll table next parent outlines) :
    ((rootIds next outlines).filterMap (table[·]?)).map Node.range =
      outlines.map (Label.range ∘ label) := by
  induction outlines generalizing next with
  | nil => rfl
  | cons outline rest ih =>
    obtain ⟨hfirst, hrest⟩ := h
    obtain ⟨row, hrow, hlabel, -, -⟩ := hfirst.row
    rw [rootIds, List.filterMap_cons_some hrow, List.map_cons, List.map_cons, ih hrest]
    exact congrArg (· :: _) (congrArg Label.range hlabel)

/-- The row of a stored outline has no layout problems exactly when it has a slice or is synthetic and
the ranges of its children lie within its own and follow one another. -/
theorem Stored.problemsAt_eq_nil_iff {tree : Tree} {id : Nat} {parent : Option Nat} {label : Label}
    {children : List Outline} (h : (Outline.node label children).Stored tree.nodes id parent) :
    tree.problemsAt (label.row parent (rootIds (id + 1) children)) = [] ↔
      (label.synthetic = false → (label.range.slice? tree.source.text).isSome = true) ∧
        (∀ range ∈ children.map (Label.range ∘ Outline.label), label.range.contains range = true) ∧
        (children.map (Label.range ∘ Outline.label)).IsChain
          fun before after => before.stop ≤ after.start := by
  rw [← h.children.map_range, List.isChain_map, List.forall_mem_map, Tree.problemsAt,
    List.append_eq_nil_iff, Node.ownProblems_eq_nil_iff, Node.childProblems_eq_nil_iff]
  rfl

end Outline

namespace Entry

/-- Whether an entry covers a slice of the text unless it is synthetic, contains its children, and each
of them ends before all later ones start. -/
structure Placed (text : String) (entry : Entry) : Prop where
  mapped : entry.synthetic = false → (entry.given.slice? text).isSome = true
  within : ∀ child ∈ entry.children, entry.effective.contains child.effective = true
  apart : entry.children.Pairwise fun before after => before.effective.stop ≤ after.effective.start

/-- Whether a row with the number `id` is that of an entry, where nodes are numbered in pre-order. -/
structure Row (id : Nat) (entry : Entry) (node : Node) : Prop where
  kind : Kind.ofName? entry.name = some node.kind
  range : node.range = entry.effective
  synthetic : node.synthetic = entry.synthetic
  sealed : node.sealed = entry.sealed
  children : node.children = blockStarts (id + 1) (entry.children.map (·.preorder.length))

/-- The node of a buildable entry has its ends in order. -/
theorem Buildable.effective_ordered {entry : Entry} (h : entry.Buildable) :
    entry.effective.start ≤ entry.effective.stop := by
  unfold effective
  split
  · exact Nat.le_refl _
  · exact h.ordered

/-- An entry that is not synthetic gets the range that it gives. -/
theorem effective_of_not_synthetic (entry : Entry) (h : entry.synthetic = false) :
    entry.effective = entry.given := by
  simp [effective, h]

/-- An entry comes first among the entries at and below it. -/
theorem mem_preorder (entry : Entry) : entry ∈ entry.preorder := by
  cases entry with
  | entry name start stop children synthetic sealed =>
    rw [preorder]
    exact List.mem_cons_self

/-- The entries of a list are among those at and below them. -/
theorem mem_preorderAll {entry : Entry} {entries : List Entry} (h : entry ∈ entries) :
    entry ∈ preorderAll entries := by
  induction entries with
  | nil => contradiction
  | cons first rest ih =>
    rw [preorderAll, List.mem_append]
    rcases List.mem_cons.mp h with rfl | hrest
    · exact Or.inl entry.mem_preorder
    · exact Or.inr (ih hrest)

/-- Described outlines have the effective ranges of their entries. -/
theorem DescribesAll.map_range {entries : List Entry} {outlines : List Outline}
    (h : DescribesAll entries outlines) :
    outlines.map (Label.range ∘ Outline.label) = entries.map effective := by
  induction entries generalizing outlines with
  | nil =>
    cases outlines with
    | nil => rfl
    | cons outline outlines => exact h.elim
  | cons first rest ih =>
    cases outlines with
    | nil => exact h.elim
    | cons outline outlines =>
      obtain ⟨hfirst, hrest⟩ := h
      have hrange : outline.label.range = first.effective := by
        cases first with
        | entry name start stop children synthetic sealed =>
          cases outline with
          | node label below => exact hfirst.2.1
      rw [List.map_cons, List.map_cons, ih hrest]
      exact congrArg (· :: _) hrange

/-- Described outlines have as many nodes as there are entries at and below theirs. -/
theorem DescribesAll.map_size {entries : List Entry} {outlines : List Outline}
    (h : DescribesAll entries outlines) :
    outlines.map Outline.size = entries.map (·.preorder.length) := by
  induction entries generalizing outlines with
  | nil =>
    cases outlines with
    | nil => rfl
    | cons outline outlines => exact h.elim
  | cons first rest ih =>
    cases outlines with
    | nil => exact h.elim
    | cons outline outlines =>
      obtain ⟨hfirst, hrest⟩ := h
      rw [List.map_cons, List.map_cons, ih hrest, (Describes.size_eq first outline hfirst).2]

section Layout

variable {tree : Tree}

mutual

/-- The rows of a described outline have no layout problems exactly when its entries are placed. -/
theorem problemsAt_rows_iff (entry : Entry) (outline : Outline) (hdescribes : entry.Describes outline)
    (hbuildable : ∀ below ∈ entry.preorder, below.Buildable) (id : Nat) (parent : Option Nat)
    (hstored : outline.Stored tree.nodes id parent) :
    (∀ row ∈ outline.rows id parent, tree.problemsAt row = []) ↔
      ∀ below ∈ entry.preorder, below.Placed tree.source.text := by
  cases entry with
  | entry name start stop children synthetic sealed =>
    cases outline with
    | node label outlines =>
      obtain ⟨-, hrange, hsynthetic, -, hchildren⟩ := hdescribes
      rw [preorder, List.forall_mem_cons] at hbuildable
      have hordered : ∀ range ∈ children.map effective, range.start ≤ range.stop := by
        intro range hmem
        obtain ⟨child, hchild, rfl⟩ := List.mem_map.mp hmem
        exact (hbuildable.2 child (mem_preorderAll hchild)).effective_ordered
      rw [Outline.rows, preorder, List.forall_mem_cons, List.forall_mem_cons,
        hstored.problemsAt_eq_nil_iff,
        problemsAt_rowsAll_iff children outlines hchildren hbuildable.2 _ _ hstored.children,
        hchildren.map_range, Range.isChain_iff_pairwise hordered, List.pairwise_map, List.forall_mem_map,
        hrange, hsynthetic]
      refine and_congr_left fun _ => ⟨fun ⟨hmapped, hwithin, hapart⟩ => ⟨?_, hwithin, hapart⟩,
        fun hplaced => ⟨?_, hplaced.within, hplaced.apart⟩⟩
      · intro hsource
        rw [← effective_of_not_synthetic _ hsource]
        exact hmapped hsource
      · intro hsource
        rw [effective_of_not_synthetic (Entry.entry name start stop children synthetic sealed) hsource]
        exact hplaced.mapped hsource

/-- The rows of described outlines have no layout problems exactly when their entries are placed. -/
theorem problemsAt_rowsAll_iff (entries : List Entry) (outlines : List Outline)
    (hdescribes : DescribesAll entries outlines)
    (hbuildable : ∀ below ∈ preorderAll entries, below.Buildable) (next parent : Nat)
    (hstored : Outline.StoredAll tree.nodes next parent outlines) :
    (∀ row ∈ Outline.rowsAll next parent outlines, tree.problemsAt row = []) ↔
      ∀ below ∈ preorderAll entries, below.Placed tree.source.text := by
  cases entries with
  | nil =>
    cases outlines with
    | nil => simp [Outline.rowsAll, preorderAll]
    | cons outline outlines => exact hdescribes.elim
  | cons first rest =>
    cases outlines with
    | nil => exact hdescribes.elim
    | cons outline outlines =>
      obtain ⟨hfirst, hothers⟩ := hdescribes
      obtain ⟨hhead, htail⟩ := hstored
      rw [preorderAll, List.forall_mem_append] at hbuildable
      rw [Outline.rowsAll, preorderAll, List.forall_mem_append, List.forall_mem_append,
        problemsAt_rows_iff first outline hfirst hbuildable.1 next (some parent) hhead,
        problemsAt_rowsAll_iff rest outlines hothers hbuildable.2 _ parent htail]

end

end Layout

section Rows

variable {table : Array Node}

mutual

/-- The table of a described outline has the rows of the entries in pre-order. -/
theorem exists_row (entry : Entry) (outline : Outline) (hdescribes : entry.Describes outline)
    (id : Nat) (parent : Option Nat) (hstored : outline.Stored table id parent) (index : Nat)
    (found : Entry) (hfound : entry.preorder[index]? = some found) :
    ∃ node, table[id + index]? = some node ∧ found.Row (id + index) node := by
  cases entry with
  | entry name start stop children synthetic sealed =>
    cases outline with
    | node label outlines =>
      obtain ⟨hkind, hrange, hsynthetic, hsealed, hchildren⟩ := hdescribes
      rw [preorder] at hfound
      cases index with
      | zero =>
        rw [List.getElem?_cons_zero, Option.some.injEq] at hfound
        subst found
        refine ⟨_, hstored.row_eq, hkind, hrange, hsynthetic, hsealed, ?_⟩
        rw [Label.row, Outline.rootIds_eq_blockStarts, hchildren.map_size]
        rfl
      | succ index =>
        rw [List.getElem?_cons_succ] at hfound
        have hnext : id + (index + 1) = id + 1 + index := by omega
        rw [hnext]
        exact exists_row_all children outlines hchildren (id + 1) id hstored.children index found hfound

/-- The table of described outlines has the rows of the entries in pre-order. -/
theorem exists_row_all (entries : List Entry) (outlines : List Outline)
    (hdescribes : DescribesAll entries outlines) (next parent : Nat)
    (hstored : Outline.StoredAll table next parent outlines) (index : Nat) (found : Entry)
    (hfound : (preorderAll entries)[index]? = some found) :
    ∃ node, table[next + index]? = some node ∧ found.Row (next + index) node := by
  cases entries with
  | nil => simp [preorderAll] at hfound
  | cons first rest =>
    cases outlines with
    | nil => exact hdescribes.elim
    | cons outline outlines =>
      obtain ⟨hfirst, hothers⟩ := hdescribes
      obtain ⟨hhead, htail⟩ := hstored
      rw [preorderAll] at hfound
      by_cases hin : index < first.preorder.length
      · rw [List.getElem?_append_left hin] at hfound
        exact exists_row first outline hfirst next (some parent) hhead index found hfound
      · rw [List.getElem?_append_right (Nat.le_of_not_lt hin)] at hfound
        have hsize := (Describes.size_eq first outline hfirst).2
        have hnext : next + index = next + outline.size + (index - first.preorder.length) := by omega
        rw [hnext]
        exact exists_row_all rest outlines hothers (next + outline.size) parent htail _ found hfound

end

end Rows

end Entry

namespace TreeFile

/-- Whether no pass of loading a file can go wrong in another way than by rejecting it: the builder is
not misused, ranges are brought between bounds that are in order, and no link leads out of the table. -/
structure LoadsSafely (file : TreeFile) : Prop where
  not_misused : ∀ misuse, file.load ≠ .error (.misused misuse)
  clamped : ∀ range : Range,
    range.clampChecked? file.source.length = some (range.clampTo file.source.length)
  linked : ∀ tree, file.assemble = .ok tree →
    ∀ node ∈ tree.nodes, ∀ child ∈ node.children, child < tree.size

/-- Whether a tree has the source of a file and its entries in pre-order, one row for each. -/
structure Tabulates (tree : Tree) (file : TreeFile) : Prop where
  source_eq : tree.source = file.source
  root_eq : tree.root = 0
  size_eq : tree.size = file.root.preorder.length
  row : ∀ id (entry : Entry), file.root.preorder[id]? = some entry →
    ∃ node, tree.nodes[id]? = some node ∧ entry.Row id node

variable (file : TreeFile)

/-- A file with an entry that cannot be built is rejected. -/
theorem load_of_not_buildable (h : ¬ ∀ entry ∈ file.root.preorder, entry.Buildable) :
    ∃ report, file.load = .error (.rejected report) := by
  rw [← Entry.problems_eq_nil_iff] at h
  unfold load
  split
  · contradiction
  · exact ⟨_, rfl⟩

/-- A file of buildable entries is loaded or rejected by the layout of the table of their outline. -/
theorem load_of_buildable {outline : Outline} (hdescribes : file.root.Describes outline)
    (hbuildable : ∀ entry ∈ file.root.preorder, entry.Buildable) :
    if (outline.tree file.source).problems = [] then file.load = .ok (outline.tree file.source)
    else ∃ report, file.load = .error (.rejected report) := by
  rw [load, (Entry.problems_eq_nil_iff _).mpr hbuildable, assemble_eq file outline hdescribes hbuildable]
  dsimp only
  split
  · next hproblems => rw [hproblems]
  · next hproblems =>
    split
    · contradiction
    · exact ⟨_, rfl⟩

/-- The table of buildable entries has no layout problems exactly when they are placed. -/
theorem problems_eq_nil_iff_placed {outline : Outline} (hdescribes : file.root.Describes outline)
    (hbuildable : ∀ entry ∈ file.root.preorder, entry.Buildable) :
    (outline.tree file.source).problems = [] ↔
      ∀ entry ∈ file.root.preorder, entry.Placed file.source.text := by
  have hstored : outline.Stored (outline.tree file.source).nodes 0 none := outline.fills_rows.stored
  rw [Tree.problems, List.flatMap_eq_nil_iff]
  exact Entry.problemsAt_rows_iff file.root outline hdescribes hbuildable 0 none hstored

/-- A file is loaded exactly when its entries can be built and are placed, and then as the table of
their outline. In every other case it is rejected. -/
theorem load_cases :
    (∃ outline : Outline, file.root.Describes outline ∧ file.load = .ok (outline.tree file.source) ∧
        ∀ entry ∈ file.root.preorder, entry.Buildable ∧ entry.Placed file.source.text) ∨
      (∃ report, file.load = .error (.rejected report)) ∧
        ¬ ∀ entry ∈ file.root.preorder, entry.Buildable ∧ entry.Placed file.source.text := by
  by_cases hbuildable : ∀ entry ∈ file.root.preorder, entry.Buildable
  · obtain ⟨outline, hdescribes⟩ := file.root.exists_describes hbuildable
    have hload := file.load_of_buildable hdescribes hbuildable
    split at hload
    · next hproblems =>
      have hplaced := (file.problems_eq_nil_iff_placed hdescribes hbuildable).mp hproblems
      exact Or.inl ⟨outline, hdescribes, hload,
        fun entry hentry => ⟨hbuildable entry hentry, hplaced entry hentry⟩⟩
    · next hproblems =>
      refine Or.inr ⟨hload, fun hall => hproblems ?_⟩
      exact (file.problems_eq_nil_iff_placed hdescribes hbuildable).mpr
        fun entry hentry => (hall entry hentry).2
  · exact Or.inr ⟨file.load_of_not_buildable hbuildable,
      fun hall => hbuildable fun entry hentry => (hall entry hentry).1⟩

/-- The links of an assembled tree stay within its table. -/
theorem lt_size_of_assemble {tree : Tree} (h : file.assemble = .ok tree) {node : Node}
    (hnode : node ∈ tree.nodes) {child : Nat} (hchild : child ∈ node.children) : child < tree.size := by
  rw [assemble_eq_run] at h
  obtain ⟨builder, hrun, hfinish⟩ := (bind_eq_ok_iff _ _ _).mp h
  obtain ⟨outline, -, rfl⟩ := Draft.exists_whole_of_finish hrun hfinish
  obtain ⟨id, hid⟩ := Array.mem_iff_getElem?.mp hnode
  obtain ⟨below, hbelow, -⟩ := (outline.fills_rows.mem_children_iff hid).mp hchild
  obtain ⟨hlt, -⟩ := Array.getElem?_eq_some_iff.mp hbelow
  exact hlt

/-- The table of the outline that a file's entries describe tabulates the file. -/
theorem tabulates_tree {outline : Outline} (hdescribes : file.root.Describes outline) :
    Tabulates (outline.tree file.source) file where
  source_eq := rfl
  root_eq := rfl
  size_eq := by
    have hsize : (outline.tree file.source).size = outline.size := outline.fills_rows.size_eq
    rw [hsize, (Entry.Describes.size_eq file.root outline hdescribes).2]
  row := by
    intro id entry hentry
    have hrow := Entry.exists_row file.root outline hdescribes 0 none outline.fills_rows.stored id entry
      hentry
    rw [Nat.zero_add] at hrow
    exact hrow

/-- Loading a file goes wrong in no other way than by rejecting it. It gives a tree exactly when every
entry can be built and is placed, and that tree tabulates the file. Whatever decoder reads the file from a
text, reading ends in loading it. -/
theorem loads_exactly_placed_entries :
    file.LoadsSafely ∧
      ((∃ tree, file.load = .ok tree) ↔
        ∀ entry ∈ file.root.preorder, entry.Buildable ∧ entry.Placed file.source.text) ∧
      (∀ tree, file.load = .ok tree → Tabulates tree file) ∧
      ∀ (decode : Decoder) (text name : String), decode text = .ok file →
        Tree.parseWith decode text name = file.load := by
  have hparse : ∀ (decode : Decoder) (text name : String), decode text = .ok file →
      Tree.parseWith decode text name = file.load := by
    intro decode text name hread
    rw [Tree.parseWith, hread]
  have hclamped : ∀ range : Range,
      range.clampChecked? file.source.length = some (range.clampTo file.source.length) :=
    fun range => range.clampChecked?_eq file.source.length
  have hlinked : ∀ tree, file.assemble = .ok tree →
      ∀ node ∈ tree.nodes, ∀ child ∈ node.children, child < tree.size :=
    fun tree hassemble node hnode child hchild => file.lt_size_of_assemble hassemble hnode hchild
  rcases file.load_cases with ⟨outline, hdescribes, hload, hall⟩ | ⟨⟨report, hload⟩, hnot⟩
  · refine ⟨⟨?_, hclamped, hlinked⟩, ⟨fun _ => hall, fun _ => ⟨_, hload⟩⟩, ?_, hparse⟩
    · intro misuse hmisused
      rw [hload] at hmisused
      cases hmisused
    · intro tree htree
      rw [hload] at htree
      cases htree
      exact file.tabulates_tree hdescribes
  · refine ⟨⟨?_, hclamped, hlinked⟩, ⟨fun ⟨tree, htree⟩ => ?_, fun hall => absurd hall hnot⟩, ?_, hparse⟩
    · intro misuse hmisused
      rw [hload] at hmisused
      cases hmisused
    · rw [hload] at htree
      cases htree
    · intro tree htree
      rw [hload] at htree
      cases htree

/-- A sealed entry over a name and a synthetic entry that ends far behind the text is loaded, and the
end of the synthetic entry does not count. Once its children overlap it is rejected. -/
theorem loads_exactly_placed_call :
    let call : TreeFile :=
      ⟨⟨"a.ts", "f()"⟩, .entry "ExpressionStatement" 0 3
        [.entry "Identifier" 0 1 [] false false, .entry "SemicolonToken" 3 9 [] true false] false true⟩
    let overlapping : TreeFile :=
      ⟨⟨"a.ts", "f()"⟩, .entry "ExpressionStatement" 0 3
        [.entry "Identifier" 0 2 [] false false, .entry "SemicolonToken" 1 3 [] false false] false true⟩
    (∃ tree, call.load = .ok tree ∧ Tabulates tree call ∧
        tree.nodes[2]? = some ⟨.semicolonToken, ⟨3, 3⟩, some 0, [], true, false⟩ ∧
        ∀ entry ∈ call.root.preorder, entry.Buildable ∧ entry.Placed "f()") ∧
      overlapping.LoadsSafely ∧
        ¬ ∀ entry ∈ overlapping.root.preorder, entry.Buildable ∧ entry.Placed "f()" := by
  intro call overlapping
  obtain ⟨-, hplaced, htable, -⟩ := call.loads_exactly_placed_entries
  obtain ⟨hsafe, hplaced', -, -⟩ := overlapping.loads_exactly_placed_entries
  constructor
  · have hloaded : call.load.toOption.isSome = true := by decide +kernel
    have hrow : (call.load.toOption.bind (·.nodes[2]?)) =
        some ⟨.semicolonToken, ⟨3, 3⟩, some 0, [], true, false⟩ := by decide +kernel
    obtain ⟨tree, hload⟩ := exists_of_toOption_isSome hloaded
    rw [hload] at hrow
    exact ⟨tree, hload, htable tree hload, hrow, hplaced.mp ⟨tree, hload⟩⟩
  · have hrejected : overlapping.load.toOption.isSome = false := by decide +kernel
    refine ⟨hsafe, fun hall => ?_⟩
    obtain ⟨tree, hload⟩ := hplaced'.mpr hall
    rw [hload] at hrejected
    exact Bool.noConfusion hrejected

end TreeFile

end Synopsis
