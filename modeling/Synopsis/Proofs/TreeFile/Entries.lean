import Synopsis.Proofs.Tree.Session
import Synopsis.Proofs.TreeFile.Calls

/-!
# Entries and the outlines they describe

An entry stands for an outline of the same shape with its kind, its marks and its range. A synthetic
entry without children covers the point at which it starts, whatever end it gives. The first check of a
load passes exactly the entries whose kinds are known and whose ends are in order, and a builder carries
out all calls of such an entry: they hang its outline, marks included, where the next node goes.
-/

namespace Synopsis

namespace Entry

/-- The name of an entry's kind. -/
def name : Entry → String
  | .entry name _ _ _ _ _ => name

/-- The range that an entry gives. -/
def given : Entry → Range
  | .entry _ start stop _ _ _ => ⟨start, stop⟩

/-- The entries directly below an entry. -/
def children : Entry → List Entry
  | .entry _ _ _ children _ _ => children

/-- Whether an entry is marked synthetic. -/
def synthetic : Entry → Bool
  | .entry _ _ _ _ synthetic _ => synthetic

/-- Whether an entry's children are not to be listed. -/
def sealed : Entry → Bool
  | .entry _ _ _ _ _ sealed => sealed

/-- The range that an entry's node gets: the start alone for a synthetic entry without children, and
otherwise the range that the entry gives. -/
def effective (entry : Entry) : Range :=
  if entry.synthetic && entry.children.isEmpty then Range.point entry.given.start else entry.given

mutual

/-- An entry and all entries below it in pre-order. -/
def preorder : Entry → List Entry
  | .entry name start stop children synthetic sealed =>
    .entry name start stop children synthetic sealed :: preorderAll children

/-- A list of entries and all entries below them in pre-order. -/
def preorderAll : List Entry → List Entry
  | [] => []
  | first :: rest => first.preorder ++ preorderAll rest

end

/-- Whether an entry has a known kind and its ends in order, so that its node can be built. -/
structure Buildable (entry : Entry) : Prop where
  known : (Kind.ofName? entry.name).isSome = true
  ordered : entry.given.start ≤ entry.given.stop

mutual

/-- Whether an entry describes an outline. -/
def Describes : Entry → Outline → Prop
  | .entry name start stop children synthetic sealed, .node label outlines =>
    Kind.ofName? name = some label.kind ∧
      label.range = (Entry.entry name start stop children synthetic sealed).effective ∧
      label.synthetic = synthetic ∧ label.sealed = sealed ∧ DescribesAll children outlines

/-- Whether entries describe outlines, one by one. -/
def DescribesAll : List Entry → List Outline → Prop
  | [], [] => True
  | first :: rest, outline :: outlines => first.Describes outline ∧ DescribesAll rest outlines
  | _, _ => False

end

/-- An entry has no problem of its own exactly when its kind is known and its ends are in order. -/
theorem ownProblems_eq_nil_iff (name : String) (start stop : Nat) (children : List Entry)
    (synthetic sealed : Bool) :
    ownProblems name ⟨start, stop⟩ = [] ↔
      (Entry.entry name start stop children synthetic sealed).Buildable := by
  have hkind : (if (Kind.ofName? name).isNone then [EntryProblem.unknownKind name ⟨start, stop⟩]
      else []) = [] ↔ (Kind.ofName? name).isSome = true := by
    cases Kind.ofName? name <;> simp
  have hrange : (if stop < start then [EntryProblem.inverted name ⟨start, stop⟩] else []) = [] ↔
      start ≤ stop := by
    simp
  rw [ownProblems, List.append_eq_nil_iff, hkind, hrange]
  exact ⟨fun ⟨hknown, hordered⟩ => ⟨hknown, hordered⟩, fun h => ⟨h.known, h.ordered⟩⟩

mutual

/-- The first check finds nothing exactly when all nodes can be built. -/
theorem problems_eq_nil_iff (entry : Entry) :
    entry.problems = [] ↔ ∀ below ∈ entry.preorder, below.Buildable := by
  cases entry with
  | entry name start stop children synthetic sealed =>
    rw [problems, preorder, List.append_eq_nil_iff, List.forall_mem_cons,
      ownProblems_eq_nil_iff name start stop children synthetic sealed, problemsAll_eq_nil_iff children]

/-- The first check finds nothing in a list exactly when all of its nodes can be built. -/
theorem problemsAll_eq_nil_iff (entries : List Entry) :
    problemsAll entries = [] ↔ ∀ below ∈ preorderAll entries, below.Buildable := by
  cases entries with
  | nil => simp [problemsAll, preorderAll]
  | cons first rest =>
    rw [problemsAll, preorderAll, List.append_eq_nil_iff, List.forall_mem_append,
      problems_eq_nil_iff first, problemsAll_eq_nil_iff rest]

end

mutual

/-- An entry of which all nodes can be built describes an outline. -/
theorem exists_describes (entry : Entry) (h : ∀ below ∈ entry.preorder, below.Buildable) :
    ∃ outline, entry.Describes outline := by
  cases entry with
  | entry name start stop children synthetic sealed =>
    rw [preorder, List.forall_mem_cons] at h
    obtain ⟨hroot, hbelow⟩ := h
    obtain ⟨outlines, hchildren⟩ := exists_describesAll children hbelow
    obtain ⟨kind, hkind⟩ := Option.isSome_iff_exists.mp hroot.known
    exact ⟨.node ⟨kind, _, synthetic, sealed⟩ outlines, hkind, rfl, rfl, rfl, hchildren⟩

/-- Entries of which all nodes can be built describe outlines. -/
theorem exists_describesAll (entries : List Entry)
    (h : ∀ below ∈ preorderAll entries, below.Buildable) :
    ∃ outlines, DescribesAll entries outlines := by
  cases entries with
  | nil => exact ⟨[], trivial⟩
  | cons first rest =>
    rw [preorderAll, List.forall_mem_append] at h
    obtain ⟨outline, hfirst⟩ := exists_describes first h.1
    obtain ⟨outlines, hrest⟩ := exists_describesAll rest h.2
    exact ⟨outline :: outlines, hfirst, hrest⟩

end

mutual

/-- A described outline has one node for each entry. -/
theorem Describes.size_eq (entry : Entry) (outline : Outline) (h : entry.Describes outline) :
    entry.size = outline.size ∧ outline.size = entry.preorder.length := by
  cases entry with
  | entry name start stop children synthetic sealed =>
    cases outline with
    | node label outlines =>
      obtain ⟨hkind, -, -, -, hchildren⟩ := h
      obtain ⟨hsize, hlength⟩ := DescribesAll.size_eq children outlines hchildren
      rw [size, hkind, Outline.size, preorder, List.length_cons]
      exact ⟨congrArg (· + 1) hsize, congrArg (· + 1) hlength⟩

/-- Described outlines have one node for each entry. -/
theorem DescribesAll.size_eq (entries : List Entry) (outlines : List Outline)
    (h : DescribesAll entries outlines) :
    sizeAll entries = Outline.sizeAll outlines ∧
      Outline.sizeAll outlines = (preorderAll entries).length := by
  cases entries with
  | nil =>
    cases outlines with
    | nil => exact ⟨rfl, rfl⟩
    | cons outline outlines => exact h.elim
  | cons entry entries =>
    cases outlines with
    | nil => exact h.elim
    | cons outline outlines =>
      obtain ⟨hfirst, hrest⟩ := h
      obtain ⟨hsize, hlength⟩ := Describes.size_eq entry outline hfirst
      obtain ⟨hsizeRest, hlengthRest⟩ := DescribesAll.size_eq entries outlines hrest
      rw [sizeAll, Outline.sizeAll, preorderAll, List.length_append]
      omega

end

end Entry

/-- Carrying out the marks of the node that was hung last marks its label. -/
theorem Draft.run_marks (label : Label) (children : List Outline) (frames : List Frame)
    (synthetic sealed : Bool) (rest : List BuilderCall) :
    (hang (.node label children) frames).run
        (Entry.marks (Frame.total frames) synthetic sealed ++ rest) =
      (hang (.node { label with
        synthetic := label.synthetic || synthetic
        sealed := label.sealed || sealed } children) frames).run rest := by
  have hsynthetic : ∀ calls, (hang (.node label children) frames).run
      (.markSynthetic (Frame.total frames) :: calls) =
        (hang (.node { label with synthetic := true } children) frames).run calls := by
    intro calls
    rw [run, perform, relabel_hang]
  have hsealed : ∀ (label : Label) calls, (hang (.node label children) frames).run
      (.markSealed (Frame.total frames) :: calls) =
        (hang (.node { label with sealed := true } children) frames).run calls := by
    intro label calls
    rw [run, perform, relabel_hang]
  cases synthetic with
  | false =>
    cases sealed with
    | false => simp [Entry.marks]
    | true => simp [Entry.marks, hsealed]
  | true =>
    cases sealed with
    | false => simp [Entry.marks, hsynthetic]
    | true => simp [Entry.marks, hsynthetic, hsealed]

/-- A started node with one more finished outline has that many nodes more. -/
theorem Frame.total_add (frame : Frame) (outer : List Frame) (outline : Outline) :
    total (frame.add outline :: outer) = total (frame :: outer) + outline.size := by
  have hsize : Outline.sizeAll (frame.finished ++ [outline]) =
      Outline.sizeAll frame.finished + outline.size := by
    induction frame.finished with
    | nil => simp [Outline.sizeAll]
    | cons first rest ih => simp only [List.cons_append, Outline.sizeAll, ih, Nat.add_assoc]
  rw [total, total, add, hsize]
  omega

namespace Entry

mutual

/-- Carrying out the calls of a buildable entry hangs its outline where the next node goes. -/
theorem run_calls_append (entry : Entry) (outline : Outline) (hdescribes : entry.Describes outline)
    (hbuildable : ∀ below ∈ entry.preorder, below.Buildable) (draft : Draft) (frames : List Frame)
    (hframes : draft.frames = .ok frames) (rest : List BuilderCall) :
    draft.run (entry.calls (Frame.total frames) ++ rest) = (Draft.hang outline frames).run rest := by
  cases entry with
  | entry name start stop children synthetic sealed =>
    cases outline with
    | node label outlines =>
      obtain ⟨kind, range, labelSynthetic, labelSealed⟩ := label
      obtain ⟨hkind, hrange, hsynthetic, hsealed, hchildren⟩ := hdescribes
      dsimp only at hkind hrange hsynthetic hsealed
      subst hrange hsynthetic hsealed
      rw [preorder, List.forall_mem_cons] at hbuildable
      obtain ⟨hroot, hbelow⟩ := hbuildable
      by_cases hleaf : (labelSynthetic && children.isEmpty) = true
      · rw [calls_leaf _ hkind hleaf, List.cons_append, Draft.run, Draft.perform, Draft.leaf, Draft.put,
          hframes]
        obtain ⟨rfl, hempty⟩ := Bool.and_eq_true_iff.mp hleaf
        obtain rfl := List.isEmpty_iff.mp hempty
        cases outlines with
        | nil => exact Draft.run_marks _ _ _ _ _ _
        | cons outline outlines => exact hchildren.elim
      · have heffective : (Entry.entry name start stop children labelSynthetic labelSealed).effective =
            ⟨start, stop⟩ := if_neg hleaf
        have hnext : Frame.total frames + 1 =
            Frame.total (⟨⟨kind, Range.point start, false, false⟩, []⟩ :: frames) := rfl
        rw [calls_interior _ hkind hleaf, List.cons_append, List.append_assoc, Draft.run, Draft.perform,
          Draft.startNode, Draft.put, hframes]
        change Draft.run _ (callsAll (Frame.total frames + 1) children ++ _) = _
        rw [hnext, run_callsAll_append children outlines hchildren hbelow, List.nil_append,
          List.cons_append, Draft.run, Draft.perform, Draft.finishNode_growing _ _ _ hroot.ordered,
          heffective]
        exact Draft.run_marks _ _ _ _ _ _

/-- Carrying out the calls of buildable entries puts their outlines below the innermost started node. -/
theorem run_callsAll_append (entries : List Entry) (outlines : List Outline)
    (hdescribes : DescribesAll entries outlines)
    (hbuildable : ∀ below ∈ preorderAll entries, below.Buildable) (inner : Frame)
    (outer : List Frame) (rest : List BuilderCall) :
    (Draft.growing inner outer).run (callsAll (Frame.total (inner :: outer)) entries ++ rest) =
      (Draft.growing ⟨inner.label, inner.finished ++ outlines⟩ outer).run rest := by
  cases entries with
  | nil =>
    cases outlines with
    | cons outline outlines => exact hdescribes.elim
    | nil => rw [callsAll, List.append_nil]; rfl
  | cons entry entries =>
    cases outlines with
    | nil => exact hdescribes.elim
    | cons outline outlines =>
      obtain ⟨hfirst, hothers⟩ := hdescribes
      rw [preorderAll, List.forall_mem_append] at hbuildable
      rw [callsAll, List.append_assoc,
        run_calls_append entry outline hfirst hbuildable.1 _ (inner :: outer) rfl,
        (Describes.size_eq entry outline hfirst).1, ← Frame.total_add]
      change (Draft.growing (inner.add outline) outer).run _ = _
      rw [run_callsAll_append entries outlines hothers hbuildable.2, Frame.add, List.append_assoc,
        List.singleton_append]

end

end Entry

/-- The tree that buildable entries describe is the stored tree of their outline. -/
theorem TreeFile.assemble_eq (file : TreeFile) (outline : Outline)
    (hdescribes : file.root.Describes outline)
    (hbuildable : ∀ entry ∈ file.root.preorder, entry.Buildable) :
    file.assemble = .ok (outline.tree file.source) := by
  have hrun := Entry.run_calls_append file.root outline hdescribes hbuildable .blank [] rfl []
  rw [List.append_nil] at hrun
  rw [assemble_eq_run, ← Draft.builder_blank, Draft.run_builder]
  change ((Draft.blank.run (file.root.calls (Frame.total []))).map _).bind _ = _
  rw [hrun]
  rfl

end Synopsis
