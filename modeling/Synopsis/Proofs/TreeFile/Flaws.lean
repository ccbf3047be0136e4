import Mathlib.Data.List.Forall2
import Mathlib.Data.List.Infix
import Synopsis.Proofs.Kind
import Synopsis.Proofs.TreeFile.Exact

/-!
# What a rejected file is told

An entry can be flawed in itself, by a kind that is not known or by an end in front of its start, or in
where it lies: outside of the text, outside of its parent, or in front of the end of the sibling before it.
A file without synthetic entries that is not loaded is told of every flaw of the first sort. Of the flaws
of the second sort it is told too if it has none of the first, but otherwise of not a single one: the
layout is looked at only where all nodes can be built. Nothing else is told.
-/

namespace Synopsis

/-- Something that is wrong with a tree file. -/
inductive Flaw where
  | unknownKind (entry : Entry)
  | inverted (entry : Entry)
  | unmapped (entry : Entry)
  | outsideParent (parent child : Entry)
  | overlapping (sibling child : Entry)

/-- A pair stands side by side in a list with at least two elements where the list starts or later. -/
theorem pair_infix_cons_cons {α : Type} {left right first second : α} {rest : List α} :
    [left, right] <:+: first :: second :: rest ↔
      left = first ∧ right = second ∨ [left, right] <:+: second :: rest := by
  rw [List.infix_cons_iff, List.cons_prefix_cons, List.cons_prefix_cons]
  simp

namespace Flaw

/-- The words for a range that is no slice of the text. -/
def unmappedWords (length : Nat) (name : String) (range : Range) : Diagnostic :=
  { message := s!"{name} range {range} is outside the source text or splits a character"
    range := range.clampTo length
    notes := [s!"source text is {length} bytes"] }

/-- The words for a child that its parent does not contain. -/
def outsideWords (length : Nat) (name : String) (range : Range) (parent : String) (outer : Range) :
    Diagnostic :=
  { message := s!"{name} {range} is not contained in its parent {parent} {outer}"
    range := range.clampTo length
    help := some "child ranges must lie within the parent range" }

/-- The words for a child that starts too early. -/
def overlappingWords (length : Nat) (name : String) (range : Range) (sibling : String) : Diagnostic :=
  { message := s!"{name} {range} overlaps or precedes the preceding {sibling} sibling"
    range := range.clampTo length
    help := some "children must be listed in source order without overlap" }

/-- A flaw in words, in a file with a text of the given length. -/
def diagnostic (length : Nat) : Flaw → Diagnostic
  | .unknownKind entry => (EntryProblem.unknownKind entry.name entry.given).diagnostic length
  | .inverted entry => (EntryProblem.inverted entry.name entry.given).diagnostic length
  | .unmapped entry => unmappedWords length entry.name entry.given
  | .outsideParent parent child => outsideWords length child.name child.given parent.name parent.given
  | .overlapping sibling child => overlappingWords length child.name child.given sibling.name

end Flaw

namespace Entry

/-- Whether a flaw of an entry keeps its node from being built. -/
inductive Unbuildable (entry : Entry) : Flaw → Prop where
  | unknownKind (h : ∀ kind : Kind, kind.name ≠ entry.name) : Unbuildable entry (.unknownKind entry)
  | inverted (h : entry.given.stop < entry.given.start) : Unbuildable entry (.inverted entry)

/-- Whether a flaw lies in where an entry or one of its children is. -/
inductive Misplaced (text : String) (entry : Entry) : Flaw → Prop where
  | unmapped (h : entry.given.slice? text = none) : Misplaced text entry (.unmapped entry)
  | outsideParent {child : Entry} (hchild : child ∈ entry.children)
      (h : ¬ entry.given.contains child.given) : Misplaced text entry (.outsideParent entry child)
  | overlapping {sibling child : Entry} (hnext : [sibling, child] <:+: entry.children)
      (h : child.given.start < sibling.given.stop) : Misplaced text entry (.overlapping sibling child)

/-- No diagnostic of an entry that cannot be built is that of a misplaced one. -/
theorem Unbuildable.diagnostic_ne {entry other : Entry} {text : String} {flaw flaw' : Flaw} {length : Nat}
    (h : entry.Unbuildable flaw) (h' : other.Misplaced text flaw') :
    flaw.diagnostic length ≠ flaw'.diagnostic length := by
  -- Messages do not help: the name of an unknown kind may be any text. Notes and advice tell the sorts apart.
  intro heq
  have hnotes := congrArg Diagnostic.notes heq
  have hhelp := congrArg Diagnostic.help heq
  cases h with
  | unknownKind =>
    cases h' with
    | unmapped =>
      have hnote : "kind names are case-sensitive, e.g. 'ClassDeclaration'" =
          "source text is " ++ toString length ++ " bytes" := (List.cons.inj hnotes).1
      have hchars := congrArg String.toList hnote
      simp at hchars
    | outsideParent => cases hhelp
    | overlapping => cases hhelp
  | inverted =>
    cases h' with
    | unmapped => cases hnotes
    | outsideParent => cases hhelp
    | overlapping => cases hhelp

/-- A node can be built exactly when its entry has no flaw that keeps it from being built. -/
theorem buildable_iff (entry : Entry) : entry.Buildable ↔ ∀ flaw, ¬ entry.Unbuildable flaw := by
  constructor
  · intro hbuildable flaw hflaw
    cases hflaw with
    | unknownKind hname =>
      obtain ⟨kind, hkind⟩ := Option.isSome_iff_exists.mp hbuildable.known
      exact hname kind ((Kind.ofName?_eq_some_iff _ _).mp hkind)
    | inverted hinverted => exact Nat.not_lt.mpr hbuildable.ordered hinverted
  · intro hnone
    refine ⟨Option.isSome_iff_ne_none.mpr fun hunknown => ?_, Nat.not_lt.mp fun hinverted => ?_⟩
    · refine hnone _ (.unknownKind fun kind hname => ?_)
      rw [(Kind.ofName?_eq_some_iff _ _).mpr hname] at hunknown
      cases hunknown
    · exact hnone _ (.inverted hinverted)

/-- The diagnostics of one entry in the first check are those of its flaws. -/
theorem mem_ownProblems_iff (entry : Entry) (length : Nat) (diagnostic : Diagnostic) :
    diagnostic ∈ (ownProblems entry.name entry.given).map (EntryProblem.diagnostic length) ↔
      ∃ flaw, entry.Unbuildable flaw ∧ flaw.diagnostic length = diagnostic := by
  have hunknown : (Kind.ofName? entry.name).isNone ↔ ∀ kind : Kind, kind.name ≠ entry.name := by
    simp only [Option.isNone_iff_eq_none, Option.eq_none_iff_forall_ne_some, ne_eq,
      Kind.ofName?_eq_some_iff]
  rw [ownProblems, List.map_append, List.mem_append]
  constructor
  · rintro (hmem | hmem)
    · split at hmem
      · next hname => exact ⟨_, .unknownKind (hunknown.mp hname), (List.mem_singleton.mp hmem).symm⟩
      · cases hmem
    · split at hmem
      · next hinverted => exact ⟨_, .inverted hinverted, (List.mem_singleton.mp hmem).symm⟩
      · cases hmem
  · rintro ⟨flaw, hflaw, rfl⟩
    cases hflaw with
    | unknownKind hname =>
      rw [if_pos (hunknown.mpr hname)]
      exact Or.inl (List.mem_singleton.mpr rfl)
    | inverted hinverted =>
      rw [if_pos hinverted]
      exact Or.inr (List.mem_singleton.mpr rfl)

mutual

/-- The first check goes through the entries in pre-order. -/
theorem problems_eq_flatMap (entry : Entry) :
    entry.problems = entry.preorder.flatMap fun below => ownProblems below.name below.given := by
  cases entry with
  | entry name start stop children synthetic sealed =>
    rw [problems, preorder, List.flatMap_cons, problemsAll_eq_flatMap children]
    rfl

/-- The first check goes through a list of entries in pre-order. -/
theorem problemsAll_eq_flatMap (entries : List Entry) :
    problemsAll entries = (preorderAll entries).flatMap fun below => ownProblems below.name below.given := by
  cases entries with
  | nil => rfl
  | cons first rest =>
    rw [problemsAll, preorderAll, List.flatMap_append, problems_eq_flatMap first,
      problemsAll_eq_flatMap rest]

end

/-- Whether a node has the name and the range of an entry that is not synthetic. -/
structure Shown (entry : Entry) (node : Node) : Prop where
  name : node.kind.name = entry.name
  range : node.range = entry.given
  synthetic : node.synthetic = false

/-- Whether a node shows an entry and its children in a table show those of the entry. -/
structure Laid (table : Array Node) (entry : Entry) (node : Node) : Prop where
  shown : entry.Shown node
  children : List.Forall₂ Shown entry.children (node.children.filterMap (table[·]?))

/-- A node with the label of an outline shows the entry that describes it. -/
theorem Describes.shown {entry : Entry} {outline : Outline} {node : Node} (h : entry.Describes outline)
    (hplain : entry.synthetic = false) (hlabel : node.label = outline.label) : entry.Shown node := by
  cases entry with
  | entry name start stop children synthetic sealed =>
    cases outline with
    | node label outlines =>
      obtain ⟨hkind, hrange, hsynthetic, -, -⟩ := h
      obtain rfl : node.label = label := hlabel
      refine ⟨(Kind.ofName?_eq_some_iff _ _).mp hkind, ?_, hsynthetic.trans hplain⟩
      rw [← effective_of_not_synthetic _ hplain]
      exact hrange

/-- The roots of stored outlines show the entries that describe them. -/
theorem DescribesAll.forall₂_shown {table : Array Node} {entries : List Entry} {outlines : List Outline}
    (h : DescribesAll entries outlines) (hplain : ∀ entry ∈ entries, entry.synthetic = false)
    {next parent : Nat} (hstored : Outline.StoredAll table next parent outlines) :
    List.Forall₂ Shown entries ((Outline.rootIds next outlines).filterMap (table[·]?)) := by
  induction entries generalizing outlines next with
  | nil =>
    cases outlines with
    | nil => exact List.Forall₂.nil
    | cons outline outlines => exact h.elim
  | cons first rest ih =>
    cases outlines with
    | nil => exact h.elim
    | cons outline outlines =>
      obtain ⟨hfirst, hrest⟩ := h
      obtain ⟨hhead, htail⟩ := hstored
      obtain ⟨row, hrow, hlabel, -, -⟩ := hhead.row
      rw [List.forall_mem_cons] at hplain
      rw [Outline.rootIds, List.filterMap_cons_some hrow]
      exact .cons (hfirst.shown hplain.1 hlabel) (ih hrest hplain.2 htail)

section Rows

variable {table : Array Node}

mutual

/-- The rows of a stored outline lay out the entries that describe it, in pre-order. -/
theorem forall₂_laid (entry : Entry) (outline : Outline) (hdescribes : entry.Describes outline)
    (hplain : ∀ below ∈ entry.preorder, below.synthetic = false) (id : Nat) (parent : Option Nat)
    (hstored : outline.Stored table id parent) :
    List.Forall₂ (Laid table) entry.preorder (outline.rows id parent) := by
  cases entry with
  | entry name start stop children synthetic sealed =>
    cases outline with
    | node label outlines =>
      have hshown : Shown _ (label.row parent (Outline.rootIds (id + 1) outlines)) :=
        hdescribes.shown (hplain _ (mem_preorder _)) rfl
      obtain ⟨-, -, -, -, hchildren⟩ := hdescribes
      rw [preorder, List.forall_mem_cons] at hplain
      rw [preorder, Outline.rows]
      refine .cons ⟨hshown, ?_⟩ (forall₂_laid_all children outlines hchildren hplain.2 _ _ hstored.children)
      exact hchildren.forall₂_shown (fun child hchild => hplain.2 child (mem_preorderAll hchild))
        hstored.children

/-- The rows of stored outlines lay out the entries that describe them, in pre-order. -/
theorem forall₂_laid_all (entries : List Entry) (outlines : List Outline)
    (hdescribes : DescribesAll entries outlines)
    (hplain : ∀ below ∈ preorderAll entries, below.synthetic = false) (next parent : Nat)
    (hstored : Outline.StoredAll table next parent outlines) :
    List.Forall₂ (Laid table) (preorderAll entries) (Outline.rowsAll next parent outlines) := by
  cases entries with
  | nil =>
    cases outlines with
    | nil => exact List.Forall₂.nil
    | cons outline outlines => exact hdescribes.elim
  | cons first rest =>
    cases outlines with
    | nil => exact hdescribes.elim
    | cons outline outlines =>
      obtain ⟨hfirst, hothers⟩ := hdescribes
      obtain ⟨hhead, htail⟩ := hstored
      rw [preorderAll, List.forall_mem_append] at hplain
      rw [preorderAll, Outline.rowsAll]
      exact List.rel_append (forall₂_laid first outline hfirst hplain.1 next (some parent) hhead)
        (forall₂_laid_all rest outlines hothers hplain.2 _ parent htail)

end

end Rows

section Layout

variable {entry : Entry} {node : Node} (length : Nat) (diagnostic : Diagnostic)

/-- A node that shows an entry is told that it has no text exactly when the entry has none. -/
theorem Shown.mem_ownProblems_iff (h : entry.Shown node) (source : Source) :
    diagnostic ∈ (node.ownProblems source).map (LayoutProblem.diagnostic source.length) ↔
      entry.given.slice? source.text = none ∧
        (Flaw.unmapped entry).diagnostic source.length = diagnostic := by
  have hwords : (LayoutProblem.unmapped node.kind node.range source.length).diagnostic source.length =
      (Flaw.unmapped entry).diagnostic source.length := by
    rw [Flaw.diagnostic, ← h.name, ← h.range]
    rfl
  rw [Node.ownProblems, h.synthetic, h.range, Bool.false_or]
  cases entry.given.slice? source.text with
  | some text => simp
  | none => simp [← hwords, h.range, eq_comm]

/-- A child is told that it lies outside of its parent exactly when its entry does. -/
theorem Shown.mem_parentProblems_iff (h : entry.Shown node) {child : Entry} {row : Node}
    (hchild : child.Shown row) :
    diagnostic ∈ (node.parentProblems row).map (LayoutProblem.diagnostic length) ↔
      ¬ entry.given.contains child.given ∧
        (Flaw.outsideParent entry child).diagnostic length = diagnostic := by
  have hwords : (LayoutProblem.outsideParent row.kind row.range node.kind node.range).diagnostic length =
      (Flaw.outsideParent entry child).diagnostic length := by
    rw [Flaw.diagnostic, ← h.name, ← h.range, ← hchild.name, ← hchild.range]
    rfl
  rw [Node.parentProblems, ← hwords, h.range, hchild.range]
  split
  · next hcontains => simp [hcontains]
  · next hcontains => simp [hcontains, eq_comm]

/-- A child is told that it overlaps the sibling before it exactly when their entries overlap. -/
theorem Shown.mem_siblingProblems_iff (h : entry.Shown node) {child : Entry} {row : Node}
    (hchild : child.Shown row) :
    diagnostic ∈ (node.siblingProblems row).map (LayoutProblem.diagnostic length) ↔
      child.given.start < entry.given.stop ∧
        (Flaw.overlapping entry child).diagnostic length = diagnostic := by
  have hwords : (LayoutProblem.overlapsSibling row.kind row.range node.kind).diagnostic length =
      (Flaw.overlapping entry child).diagnostic length := by
    rw [Flaw.diagnostic, ← h.name, ← hchild.name, ← hchild.range]
    rfl
  rw [Node.siblingProblems, ← hwords, h.range, hchild.range]
  split
  · next hbefore => simp [hbefore, eq_comm]
  · next hbefore => simp [hbefore]

/-- The diagnostics of the children of a node are those of the entries outside of its own and of those that
start before the end of the entry in front. -/
theorem Shown.mem_childProblems_iff (h : entry.Shown node) {entries : List Entry} {rows : List Node}
    (hrows : List.Forall₂ Shown entries rows) {previous : Option Entry} {before : Option Node}
    (hbefore : Option.Rel Shown previous before) :
    diagnostic ∈ (node.childProblems before rows).map (LayoutProblem.diagnostic length) ↔
      (∃ child ∈ entries, ¬ entry.given.contains child.given ∧
          (Flaw.outsideParent entry child).diagnostic length = diagnostic) ∨
        ∃ sibling child, [sibling, child] <:+: previous.toList ++ entries ∧
          child.given.start < sibling.given.stop ∧
          (Flaw.overlapping sibling child).diagnostic length = diagnostic := by
  induction hrows generalizing previous before with
  | nil =>
    -- A sibling alone has no child behind it.
    cases previous with
    | none => simp [Node.childProblems]
    | some sibling => simp [Node.childProblems, List.infix_cons_iff]
  | @cons child row entries rows hchild hrows ih =>
    have hparent := h.mem_parentProblems_iff length diagnostic hchild
    have hrest := ih (.some hchild)
    rw [Option.toList_some, List.singleton_append] at hrest
    cases hbefore with
    | none =>
      simp only [Node.childProblems, List.map_append, List.mem_append, List.map_nil, List.not_mem_nil, or_false,
        hparent, hrest, List.mem_cons, or_and_right, exists_or, exists_eq_left, Option.toList_none,
        List.nil_append, or_assoc]
    | @some sibling front hsibling =>
      have hoverlap := hsibling.mem_siblingProblems_iff length diagnostic hchild
      simp only [Node.childProblems, List.map_append, List.mem_append, hparent, hrest, hoverlap,
        List.mem_cons, Option.toList_some, List.singleton_append, pair_infix_cons_cons, or_and_right,
        exists_or, and_assoc, exists_and_left, exists_eq_left, or_assoc]
      exact or_congr_right or_left_comm

/-- The layout diagnostics of a node are those of the flaws in where its entry and its children are. -/
theorem Laid.mem_problemsAt_iff {tree : Tree} (h : entry.Laid tree.nodes node) :
    diagnostic ∈ (tree.problemsAt node).map (LayoutProblem.diagnostic tree.source.length) ↔
      ∃ flaw, entry.Misplaced tree.source.text flaw ∧
        flaw.diagnostic tree.source.length = diagnostic := by
  rw [Tree.problemsAt, List.map_append, List.mem_append, h.shown.mem_ownProblems_iff,
    h.shown.mem_childProblems_iff _ _ h.children .none]
  constructor
  · rintro (⟨hslice, hwords⟩ | ⟨child, hchild, houtside, hwords⟩ | ⟨sibling, child, hnext, hearly, hwords⟩)
    · exact ⟨_, .unmapped hslice, hwords⟩
    · exact ⟨_, .outsideParent hchild houtside, hwords⟩
    · exact ⟨_, .overlapping hnext hearly, hwords⟩
  · rintro ⟨flaw, hflaw, hwords⟩
    cases hflaw with
    | unmapped hslice => exact Or.inl ⟨hslice, hwords⟩
    | outsideParent hchild houtside => exact Or.inr (Or.inl ⟨_, hchild, houtside, hwords⟩)
    | overlapping hnext hearly => exact Or.inr (Or.inr ⟨_, _, hnext, hearly, hwords⟩)

end Layout

end Entry

namespace TreeFile

/-- Whether diagnostics are those of the flaws of a sort that an entry has, in a text of the given
length. -/
def Tells (length : Nat) (sort : Entry → Flaw → Prop) (entry : Entry) (told : List Diagnostic) : Prop :=
  ∀ diagnostic, diagnostic ∈ told ↔ ∃ flaw, sort entry flaw ∧ flaw.diagnostic length = diagnostic

/-- What is told entry by entry is told of the flaws of all entries. -/
theorem mem_flatten_of_tells {length : Nat} {sort : Entry → Flaw → Prop} {entries : List Entry}
    {told : List (List Diagnostic)} (h : List.Forall₂ (Tells length sort) entries told)
    (diagnostic : Diagnostic) :
    diagnostic ∈ told.flatten ↔
      ∃ entry ∈ entries, ∃ flaw, sort entry flaw ∧ flaw.diagnostic length = diagnostic := by
  induction h with
  | nil => simp
  | @cons entry list entries told hfirst _ ih =>
    rw [List.flatten_cons, List.mem_append, hfirst diagnostic, ih]
    simp only [List.mem_cons, or_and_right, exists_or, exists_eq_left]

variable {file : TreeFile} {error : LoadError}

/-- A file with nodes that cannot be built is told why, entry by entry. -/
theorem tells_of_not_buildable (hload : file.load = .error error)
    (h : ¬ ∀ entry ∈ file.root.preorder, entry.Buildable) :
    ∃ told, error.diagnostics = told.flatten ∧
      List.Forall₂ (Tells file.source.length Entry.Unbuildable) file.root.preorder told := by
  refine ⟨file.root.preorder.map fun entry => (Entry.ownProblems entry.name entry.given).map
    (EntryProblem.diagnostic file.source.length), ?_, ?_⟩
  · rw [← List.flatMap_def, ← List.map_flatMap, ← Entry.problems_eq_flatMap]
    rw [← Entry.problems_eq_nil_iff] at h
    unfold load at hload
    split at hload
    · contradiction
    · cases hload
      rfl
  · rw [List.forall₂_map_right_iff, List.forall₂_same]
    intro entry _
    exact entry.mem_ownProblems_iff file.source.length

/-- A file of which all nodes can be built is told where they are misplaced, entry by entry. -/
theorem tells_of_buildable (hload : file.load = .error error)
    (h : ∀ entry ∈ file.root.preorder, entry.Buildable)
    (hplain : ∀ entry ∈ file.root.preorder, entry.synthetic = false) :
    ∃ told, error.diagnostics = told.flatten ∧
      List.Forall₂ (Tells file.source.length (Entry.Misplaced file.source.text)) file.root.preorder told := by
  obtain ⟨outline, hdescribes⟩ := file.root.exists_describes h
  refine ⟨(outline.rows 0 none).map fun row => ((outline.tree file.source).problemsAt row).map
    (LayoutProblem.diagnostic file.source.length), ?_, ?_⟩
  · rw [← List.flatMap_def, ← List.map_flatMap]
    rw [load, (Entry.problems_eq_nil_iff _).mpr h, assemble_eq file outline hdescribes h] at hload
    dsimp only at hload
    split at hload
    · cases hload
    · cases hload
      rfl
  · have hlaid : List.Forall₂ (Entry.Laid (outline.tree file.source).nodes) file.root.preorder
        (outline.rows 0 none) :=
      Entry.forall₂_laid file.root outline hdescribes hplain 0 none outline.fills_rows.stored
    rw [List.forall₂_map_right_iff]
    refine hlaid.imp ?_
    intro entry row hrow diagnostic
    exact hrow.mem_problemsAt_iff diagnostic

/-- A file without synthetic entries that is not loaded is told of every flaw that keeps a node from being
built. It is told of a misplaced entry exactly when all of its nodes can be built. Entry by entry it is told
of the flaws of one of the two sorts and of nothing else. Whatever decoder reads the file from a text, reading
ends in the same way. -/
theorem rejection_tells_flaws (hload : file.load = .error error)
    (hplain : ∀ entry ∈ file.root.preorder, entry.synthetic = false) :
    (∀ entry ∈ file.root.preorder, ∀ flaw, entry.Unbuildable flaw →
        flaw.diagnostic file.source.length ∈ error.diagnostics) ∧
      (∀ entry ∈ file.root.preorder, ∀ flaw, entry.Misplaced file.source.text flaw →
        (flaw.diagnostic file.source.length ∈ error.diagnostics ↔
          ∀ other ∈ file.root.preorder, ∀ flaw', ¬ other.Unbuildable flaw')) ∧
      (∃ told, error.diagnostics = told.flatten ∧
        (List.Forall₂ (Tells file.source.length Entry.Unbuildable) file.root.preorder told ∨
          List.Forall₂ (Tells file.source.length (Entry.Misplaced file.source.text)) file.root.preorder
            told)) ∧
      ∀ (decode : Decoder) (text name : String), decode text = .ok file →
        Tree.parseWith decode text name = .error error := by
  have hparse : ∀ (decode : Decoder) (text name : String), decode text = .ok file →
      Tree.parseWith decode text name = .error error := by
    intro decode text name hread
    rw [Tree.parseWith, hread, ← hload]
  simp only [← Entry.buildable_iff]
  -- The layout is looked at only if the first check finds nothing.
  by_cases hbuildable : ∀ entry ∈ file.root.preorder, entry.Buildable
  · obtain ⟨told, hdiagnostics, htells⟩ := tells_of_buildable hload hbuildable hplain
    refine ⟨?_, ?_, ⟨told, hdiagnostics, Or.inr htells⟩, hparse⟩
    · intro entry hentry flaw hflaw
      exact absurd hflaw (entry.buildable_iff.mp (hbuildable entry hentry) flaw)
    · intro entry hentry flaw hflaw
      rw [hdiagnostics, mem_flatten_of_tells htells]
      exact iff_of_true ⟨entry, hentry, flaw, hflaw, rfl⟩ hbuildable
  · obtain ⟨told, hdiagnostics, htells⟩ := tells_of_not_buildable hload hbuildable
    refine ⟨?_, ?_, ⟨told, hdiagnostics, Or.inl htells⟩, hparse⟩
    · intro entry hentry flaw hflaw
      rw [hdiagnostics, mem_flatten_of_tells htells]
      exact ⟨entry, hentry, flaw, hflaw, rfl⟩
    · intro entry hentry flaw hflaw
      rw [hdiagnostics, mem_flatten_of_tells htells]
      refine iff_of_false ?_ hbuildable
      rintro ⟨other, -, flaw', hflaw', hwords⟩
      exact hflaw'.diagnostic_ne hflaw hwords

/-- A class that ends within its own name. -/
def shortClass : Entry :=
  .entry "ClassDeclaration" 0 2 [.entry "Identifier" 1 3 [] false false] false false

/-- A file with a class that ends within its own name and an entry of the given kind behind it. -/
def shortClassBefore (kind : String) : TreeFile :=
  ⟨⟨"a.ts", "abcd"⟩, .entry "SourceFile" 0 4 [shortClass, .entry kind 3 4 [] false false] false false⟩

/-- The name that reaches beyond its class. -/
def longName : Flaw := .outsideParent shortClass (.entry "Identifier" 1 3 [] false false)

/-- The class contains less than its name. -/
theorem misplaced_longName : shortClass.Misplaced "abcd" longName :=
  .outsideParent List.mem_cons_self (by decide)

/-- A name that reaches beyond its class is told of where all kinds are known, and not where the kind behind
the class is unknown. -/
theorem rejection_tells_longName :
    (∃ error, (shortClassBefore "SemicolonToken").load = .error error ∧
        longName.diagnostic 4 ∈ error.diagnostics) ∧
      ∃ error, (shortClassBefore "NotAKind").load = .error error ∧
        (Flaw.unknownKind (.entry "NotAKind" 3 4 [] false false)).diagnostic 4 ∈ error.diagnostics ∧
        longName.diagnostic 4 ∉ error.diagnostics := by
  have hclass (kind : String) : shortClass ∈ (shortClassBefore kind).root.preorder :=
    List.mem_cons_of_mem _ List.mem_cons_self
  have hbehind (kind : String) :
      Entry.entry kind 3 4 [] false false ∈ (shortClassBefore kind).root.preorder :=
    .tail _ (.tail _ (.tail _ (.head _)))
  constructor
  · obtain ⟨error, hload⟩ := exists_of_toOption_isNone
      (show (shortClassBefore "SemicolonToken").load.toOption.isNone = true by decide +kernel)
    obtain ⟨-, hmisplaced, -, -⟩ := rejection_tells_flaws hload (by decide)
    refine ⟨error, hload, (hmisplaced shortClass (hclass _) longName misplaced_longName).mpr ?_⟩
    simp only [← Entry.buildable_iff, ← Entry.problems_eq_nil_iff]
    decide +kernel
  · obtain ⟨error, hload⟩ := exists_of_toOption_isNone
      (show (shortClassBefore "NotAKind").load.toOption.isNone = true by decide +kernel)
    obtain ⟨hunbuildable, hmisplaced, -, -⟩ := rejection_tells_flaws hload (by decide)
    have hunknown : (Entry.entry "NotAKind" 3 4 [] false false).Unbuildable
        (.unknownKind (.entry "NotAKind" 3 4 [] false false)) := by
      refine .unknownKind fun kind hname => ?_
      have hread : Kind.ofName? "NotAKind" = none := by decide +kernel
      rw [(Kind.ofName?_eq_some_iff "NotAKind" kind).mpr hname] at hread
      cases hread
    refine ⟨error, hload, hunbuildable _ (hbehind _) _ hunknown, fun htold => ?_⟩
    exact (hmisplaced shortClass (hclass _) longName misplaced_longName).mp htold _ (hbehind _) _ hunknown

/-- Not every flaw of a file is told. -/
theorem rejection_hides_longName :
    (∀ entry ∈ (shortClassBefore "NotAKind").root.preorder, entry.synthetic = false) ∧
      shortClass ∈ (shortClassBefore "NotAKind").root.preorder ∧ shortClass.Misplaced "abcd" longName ∧
      ∃ report, (shortClassBefore "NotAKind").load = .error (.rejected report) ∧
        report.diagnostics.map Diagnostic.message = ["unknown node kind 'NotAKind'"] ∧
        longName.diagnostic 4 ∉ report.diagnostics := by
  refine ⟨by decide, List.mem_cons_of_mem _ List.mem_cons_self, misplaced_longName, ⟨"a.ts", "abcd",
    [⟨"unknown node kind 'NotAKind'", ⟨3, 4⟩, ["kind names are case-sensitive, e.g. 'ClassDeclaration'"],
      none⟩]⟩, ?_, rfl, ?_⟩
  · decide +kernel
  · decide +kernel

end TreeFile

end Synopsis
