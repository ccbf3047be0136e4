import Mathlib.Data.List.Chain
import Synopsis.Proofs.Span.Tree
import Synopsis.Proofs.Span.Mirror
import Synopsis.Proofs.Text.Edit

/-!
# Composition edits the source

Where the ranges of a host tree nest and follow one another over whole characters of the text,
composing a span tree over it is editing the slice of its root. The edits are read off the tree from
the root down: a skipped or replaced span is one edit, a span whose children are skipped is one edit
for each child, and every other span leaves the edits to its children. Nothing is assumed about the
modifications.
-/

namespace Synopsis

/-- Whether a range covers whole characters of a text. -/
def Range.Fits (range : Range) (text : String) : Prop :=
  range.start ≤ range.stop ∧ range.stop ≤ Text.byteLength text.toList ∧
    Text.IsBoundary text range.start ∧ Text.IsBoundary text range.stop

instance (range : Range) (text : String) : Decidable (range.Fits text) :=
  inferInstanceAs (Decidable (_ ∧ _ ∧ _ ∧ _))

/-- A range that fits a text has a slice. -/
theorem Range.Fits.slice?_eq {range : Range} {text : String} (h : range.Fits text) :
    range.slice? text = some (Text.sliceOrEmpty text range.start range.stop) :=
  Text.slice?_eq_some_sliceOrEmpty text _ _ h.1 h.2.2.1 h.2.2.2

namespace Host

mutual

/-- Whether the ranges of a host tree are well formed over a text: every range fits the text, every
child lies within its parent, and no child starts before the one in front of it ends. -/
def WellPlaced (text : String) : Host → Prop
  | .node _ range _ _ offspring =>
    range.Fits text ∧ (∀ child ∈ offspring, range.contains child.range = true) ∧
      offspring.IsChain (fun before after => before.range.stop ≤ after.range.start) ∧
      WellPlacedAll text offspring

/-- Whether the ranges of a list of host trees are well formed over a text, each tree by itself. -/
def WellPlacedAll (text : String) : List Host → Prop
  | [] => True
  | host :: hosts => host.WellPlaced text ∧ WellPlacedAll text hosts

end

/-- Whether well-placed trees follow one another between two offsets. -/
def InRow (text : String) (cursor stop : Nat) : List Host → Prop
  | [] => cursor ≤ stop
  | host :: hosts =>
    cursor ≤ host.range.start ∧ host.WellPlaced text ∧ InRow text host.range.stop stop hosts

/-- The range of a well-placed tree fits the text. -/
theorem WellPlaced.fits {text : String} {host : Host} (h : host.WellPlaced text) :
    host.range.Fits text := by
  cases host with
  | node tag range hostText withheld offspring =>
    rw [WellPlaced] at h
    exact h.1

/-- Siblings in order within their parent follow one another between its ends. -/
theorem inRow_of_isChain (text : String) (cursor stop : Nat) (hosts : List Host)
    (hle : cursor ≤ stop) (hbefore : ∀ host ∈ hosts.head?, cursor ≤ host.range.start)
    (hwithin : ∀ host ∈ hosts, host.range.stop ≤ stop)
    (hchain : hosts.IsChain fun before after => before.range.stop ≤ after.range.start)
    (hplaced : WellPlacedAll text hosts) : InRow text cursor stop hosts := by
  induction hosts generalizing cursor with
  | nil => exact hle
  | cons host hosts ih =>
    obtain ⟨hfirst, hrest⟩ := hplaced
    refine ⟨hbefore host rfl, hfirst, ih host.range.stop (hwithin host List.mem_cons_self) ?_ ?_ ?_ hrest⟩
    · intro next hnext
      cases hosts with
      | nil => contradiction
      | cons second others =>
        simp only [List.head?_cons, Option.mem_def, Option.some.injEq] at hnext
        subst next
        exact (List.isChain_cons_cons.mp hchain).1
    · exact fun other hother => hwithin other (List.mem_cons_of_mem _ hother)
    · exact hchain.tail

/-- The children of a well-placed node follow one another between its ends. -/
theorem WellPlaced.inRow {text : String} {host : Host} (h : host.WellPlaced text) :
    InRow text host.range.start host.range.stop host.offspring := by
  cases host with
  | node tag range hostText withheld offspring =>
    rw [WellPlaced] at h
    obtain ⟨hfits, hcontains, hchain, hplaced⟩ := h
    have hwithin : ∀ child ∈ offspring,
        range.start ≤ child.range.start ∧ child.range.stop ≤ range.stop := by
      intro child hchild
      simpa [Range.contains] using hcontains child hchild
    exact inRow_of_isChain text _ _ offspring hfits.1
      (fun child hchild => (hwithin child (List.mem_of_mem_head? hchild)).1)
      (fun child hchild => (hwithin child hchild).2) hchain hplaced

end Host

namespace SpanTree

/-- The removal of the text of a span. -/
def removal (tree : SpanTree) : Edit := ⟨tree.range, ""⟩

mutual

/-- The edits of the source that a span tree stands for, in source order. -/
def edits : SpanTree → List Edit
  | .span node .skipAll _ => [⟨node.range, ""⟩]
  | .span node (.replace text) _ => [⟨node.range, text⟩]
  | .span _ .skipChildren children => children.map removal
  | .span _ .keep children => editsAll children

/-- The edits of the source that a list of span trees stands for. -/
def editsAll : List SpanTree → List Edit
  | [] => []
  | tree :: trees => tree.edits ++ editsAll trees

end

/-- Replacing a whole slice leaves only the replacement. -/
theorem splice_whole (text : String) (range : Range) (replacement : String) :
    Edit.splice text range.start range.stop [⟨range, replacement⟩] = replacement := by
  simp [Edit.splice, Text.sliceOrEmpty_self]

/-- One edit of a whole range is in order between the ends of the range. -/
theorem inOrder_whole (text : String) (range : Range) (replacement : String)
    (h : range.Fits text) :
    Edit.InOrder text range.start range.stop [⟨range, replacement⟩] :=
  ⟨Nat.le_refl _, h.1, h.2.2.1, h.2.2.2, Nat.le_refl _⟩

/-- Children that are skipped are removed, and the text around them is kept. -/
theorem stitch_skip_eq_splice (text : String) (cursor stop : Nat) (trees : List SpanTree)
    (hosts : List Host) (hmirror : MirrorsAll trees hosts) (hrow : Host.InRow text cursor stop hosts) :
    Edit.InOrder text cursor stop (trees.map removal) ∧
      stitch text true cursor stop trees = Edit.splice text cursor stop (trees.map removal) := by
  induction trees generalizing cursor hosts with
  | nil =>
    cases hosts with
    | nil => exact ⟨hrow, by rw [stitch]; rfl⟩
    | cons host hosts => exact hmirror.elim
  | cons tree trees ih =>
    cases hosts with
    | nil => exact hmirror.elim
    | cons host hosts =>
      obtain ⟨hfirst, hrest⟩ := hmirror
      obtain ⟨hcursor, hplaced, hrow⟩ := hrow
      have hfits := hplaced.fits
      rw [← hfirst.range_eq] at hcursor hrow hfits
      obtain ⟨horder, htext⟩ := ih tree.range.stop hosts hrest hrow
      refine ⟨⟨hcursor, hfits.1, hfits.2.2.1, hfits.2.2.2, horder⟩, ?_⟩
      rw [stitch, htext]
      rfl

mutual

/-- What a span writes is its slice with its edits made. -/
theorem compose_eq_splice (text : String) (tree : SpanTree) (host : Host)
    (hmirror : tree.Mirrors host) (hplaced : host.WellPlaced text) :
    Edit.InOrder text host.range.start host.range.stop tree.edits ∧
      tree.compose text = Edit.splice text host.range.start host.range.stop tree.edits := by
  cases tree with
  | span node modification children =>
    rw [Mirrors] at hmirror
    obtain ⟨rfl, hchildren⟩ := hmirror
    have hfits := hplaced.fits
    cases modification with
    | keep =>
      rw [edits, compose]
      exact stitch_keep_eq_splice text _ _ children _ hchildren hplaced.inRow hfits.2.2.1 hfits.2.2.2
    | skipAll =>
      rw [edits, compose]
      exact ⟨inOrder_whole text _ _ hfits, (splice_whole text _ _).symm⟩
    | skipChildren =>
      rw [edits, compose]
      exact stitch_skip_eq_splice text _ _ children _ hchildren hplaced.inRow
    | replace replacement =>
      rw [edits, compose]
      exact ⟨inOrder_whole text _ _ hfits, (splice_whole text _ _).symm⟩

/-- Children that are kept write their own edits, and the text around them is kept. -/
theorem stitch_keep_eq_splice (text : String) (cursor stop : Nat) (trees : List SpanTree)
    (hosts : List Host) (hmirror : MirrorsAll trees hosts) (hrow : Host.InRow text cursor stop hosts)
    (hcursor : Text.IsBoundary text cursor) (hstop : Text.IsBoundary text stop) :
    Edit.InOrder text cursor stop (editsAll trees) ∧
      stitch text false cursor stop trees = Edit.splice text cursor stop (editsAll trees) := by
  cases trees with
  | nil =>
    cases hosts with
    | nil => exact ⟨hrow, by rw [stitch]; rfl⟩
    | cons host hosts => exact hmirror.elim
  | cons tree trees =>
    cases hosts with
    | nil => exact hmirror.elim
    | cons host hosts =>
      obtain ⟨hfirst, hrest⟩ := hmirror
      obtain ⟨hle, hplaced, hrow⟩ := hrow
      have hfits := hplaced.fits
      obtain ⟨horder, htext⟩ := compose_eq_splice text tree host hfirst hplaced
      obtain ⟨horderRest, htextRest⟩ :=
        stitch_keep_eq_splice text host.range.stop stop trees hosts hrest hrow hfits.2.2.2 hstop
      have horderFirst := horder.weaken hle
      refine ⟨horderFirst.append horderRest, ?_⟩
      rw [editsAll, Edit.splice_append horderFirst horderRest hcursor hfits.2.2.2 hstop,
        Edit.splice_eq_slice_append horder hle hcursor hfits.2.2.1 hfits.2.2.2,
        ← htext, ← htextRest, stitch, hfirst.range_eq]
      simp

end

mutual

/-- An unmodified tree makes no edits. -/
theorem edits_ofHost (host : Host) : (ofHost host).edits = [] := by
  cases host with
  | node tag range text withheld offspring =>
    rw [ofHost, edits]
    exact editsAll_ofHosts offspring

/-- Unmodified trees make no edits. -/
theorem editsAll_ofHosts (hosts : List Host) : editsAll (ofHosts hosts) = [] := by
  cases hosts with
  | nil => rfl
  | cons host hosts => rw [ofHosts, editsAll, edits_ofHost host, editsAll_ofHosts hosts, List.append_nil]

end

/-- The modified text of a tree over a well-placed host is the slice of its root, edited and then
collapsed. -/
theorem modifiedText_eq_collapse_splice (text : String) (tree : SpanTree) (host : Host)
    (hmirror : tree.Mirrors host) (hplaced : host.WellPlaced text) :
    tree.modifiedText text =
      Text.collapse (Edit.splice text host.range.start host.range.stop tree.edits) := by
  rw [modifiedText, (compose_eq_splice text tree host hmirror hplaced).2]

/-- Whatever modifications the spans of a well-placed host are given, its modified text is the slice of
the root in which the edits of the spans have been made, collapsed. The edits stand in source order,
within the root and without overlap, and without modifications there are none. -/
theorem modifiedText_modify_eq_collapse_edited (text : String) (host : Host) (tree : SpanTree)
    (hbuild : build host = .ok tree) (hplaced : host.WellPlaced text) (rule : Span → Modification) :
    (tree.modify rule).spans = tree.spans.map (fun span => { span with modification := rule span }) ∧
      ∃ slice edited, host.range.slice? text = some slice ∧
        Edit.InOrder text host.range.start host.range.stop (tree.modify rule).edits ∧
        Edit.makeAll? host.range.start (tree.modify rule).edits slice = some edited ∧
        (tree.modify rule).modifiedText text = Text.collapse edited ∧
        tree.modifiedText text = Text.collapse slice := by
  obtain ⟨-, rfl⟩ := (build_eq_ok_iff host tree).mp hbuild
  have hfits := hplaced.fits
  have hmirror := mirrors_ofHost host
  have hmodified := mirrors_modify rule _ host hmirror
  have horder := (compose_eq_splice text _ host hmodified hplaced).1
  refine ⟨spans_modify rule _, _, _, hfits.slice?_eq, horder,
    Edit.makeAll?_sliceOrEmpty horder hfits.2.2.1 hfits.2.2.2,
    modifiedText_eq_collapse_splice text _ host hmodified hplaced, ?_⟩
  rw [modifiedText_eq_collapse_splice text _ host hmirror hplaced, edits_ofHost]
  rfl

/-- A replaced letter of two bytes next to braces whose content is skipped. -/
theorem modifiedText_modify_braces :
    let host : Host := .node 0 ⟨0, 5⟩ (.ok "é{x}") none
      [.node 1 ⟨0, 2⟩ (.ok "é") none [],
        .node 2 ⟨2, 5⟩ (.ok "{x}") none [.node 3 ⟨3, 4⟩ (.ok "x") none []]]
    let rule : Span → Modification := fun span =>
      if span.id = 1 then .replace "e" else if span.id = 2 then .skipChildren else .keep
    build host = .ok (ofHost host) ∧ host.WellPlaced "é{x}" ∧
      ((ofHost host).modify rule).edits = [⟨⟨0, 2⟩, "e"⟩, ⟨⟨3, 4⟩, ""⟩] ∧
      ∃ slice edited, host.range.slice? "é{x}" = some slice ∧
        Edit.makeAll? 0 ((ofHost host).modify rule).edits slice = some edited ∧
        ((ofHost host).modify rule).modifiedText "é{x}" = Text.collapse edited := by
  intro host rule
  have hbuild : build host = .ok (ofHost host) := rfl
  have hplaced : host.WellPlaced "é{x}" := by
    simp only [host, Host.WellPlaced, Host.WellPlacedAll]
    decide
  obtain ⟨-, slice, edited, hslice, -, hmade, htext, -⟩ :=
    modifiedText_modify_eq_collapse_edited "é{x}" host (ofHost host) hbuild hplaced rule
  exact ⟨hbuild, hplaced, rfl, slice, edited, hslice, hmade, htext⟩

end SpanTree

end Synopsis
