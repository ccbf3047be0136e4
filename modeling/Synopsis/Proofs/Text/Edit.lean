import Synopsis.Range
import Synopsis.Proofs.Text.Slice

/-!
# Edits of a source text

An edit replaces a range of the source by another text. Edits that stand in source order without
overlapping are made from the last to the first, so that the offsets of the edits still to be made
keep their meaning. The same text can be written from left to right, slice by slice, and this second
form splits at any boundary that no edit crosses.
-/

namespace Synopsis

/-- The replacement of a range of a source by a text. -/
structure Edit where
  range : Range
  text : String
deriving DecidableEq, Repr

namespace Edit

/-- Make an edit in a piece of the source that begins at byte `base`. -/
def make? (base : Nat) (edit : Edit) (piece : String) : Option String := do
  let (before, rest) ← Text.cut? (edit.range.start - base) piece.toList
  let (_, after) ← Text.cut? (edit.range.stop - edit.range.start) rest
  return String.ofList before ++ edit.text ++ String.ofList after

/-- Make a list of edits in a piece of the source that begins at byte `base`, the last of them first. -/
def makeAll? (base : Nat) : List Edit → String → Option String
  | [], piece => some piece
  | edit :: rest, piece => (makeAll? base rest piece).bind (edit.make? base)

/-- Edits between two offsets that replace whole characters, stand in source order and do not
overlap. -/
def InOrder (source : String) (start stop : Nat) : List Edit → Prop
  | [] => start ≤ stop
  | edit :: rest =>
    start ≤ edit.range.start ∧ edit.range.start ≤ edit.range.stop ∧
      Text.IsBoundary source edit.range.start ∧ Text.IsBoundary source edit.range.stop ∧
      InOrder source edit.range.stop stop rest

/-- The source from `cursor` to `stop`, written from left to right with the edits made on the way. -/
def splice (source : String) (cursor stop : Nat) : List Edit → String
  | [] => Text.sliceOrEmpty source cursor stop
  | edit :: rest =>
    Text.sliceOrEmpty source cursor edit.range.start ++ edit.text ++
      splice source edit.range.stop stop rest

/-- Edits in order stay in order when they may begin earlier. -/
theorem InOrder.weaken {source : String} {earlier start stop : Nat} {edits : List Edit}
    (h : InOrder source start stop edits) (hearlier : earlier ≤ start) :
    InOrder source earlier stop edits := by
  cases edits with
  | nil => exact Nat.le_trans hearlier h
  | cons edit rest => exact ⟨Nat.le_trans hearlier h.1, h.2⟩

/-- Edits up to an offset and edits from it on are in order together. -/
theorem InOrder.append {source : String} {start middle stop : Nat} {left right : List Edit}
    (hleft : InOrder source start middle left) (hright : InOrder source middle stop right) :
    InOrder source start stop (left ++ right) := by
  induction left generalizing start with
  | nil => exact hright.weaken hleft
  | cons edit rest ih =>
    obtain ⟨hstart, hrange, hfirst, hlast, hrest⟩ := hleft
    exact ⟨hstart, hrange, hfirst, hlast, ih hrest⟩

/-- Text in front of all edits is written as it stands. -/
theorem splice_eq_slice_append {source : String} {start middle stop : Nat} {edits : List Edit}
    (hedits : InOrder source middle stop edits) (hle : start ≤ middle)
    (hstart : Text.IsBoundary source start) (hmiddle : Text.IsBoundary source middle)
    (hstop : Text.IsBoundary source stop) :
    splice source start stop edits =
      Text.sliceOrEmpty source start middle ++ splice source middle stop edits := by
  cases edits with
  | nil => exact (Text.sliceOrEmpty_append _ _ _ _ hle hedits hstart hmiddle hstop).symm
  | cons edit rest =>
    obtain ⟨hfirst, -, hboundary, -, -⟩ := hedits
    have hgap := Text.sliceOrEmpty_append source start middle edit.range.start hle hfirst
      hstart hmiddle hboundary
    simp only [splice, ← hgap, String.append_assoc]

/-- Writing with edits splits at any boundary that no edit crosses. -/
theorem splice_append {source : String} {start middle stop : Nat} {left right : List Edit}
    (hleft : InOrder source start middle left) (hright : InOrder source middle stop right)
    (hstart : Text.IsBoundary source start) (hmiddle : Text.IsBoundary source middle)
    (hstop : Text.IsBoundary source stop) :
    splice source start stop (left ++ right) =
      splice source start middle left ++ splice source middle stop right := by
  induction left generalizing start with
  | nil => exact splice_eq_slice_append hright hleft hstart hmiddle hstop
  | cons edit rest ih =>
    obtain ⟨-, -, -, hlast, hrest⟩ := hleft
    simp only [List.cons_append, splice, ih hrest hlast, String.append_assoc]

/-- A single edit is made between the text before its range and the text behind it. -/
theorem make?_append (base : Nat) (edit : Edit) (before removed after : String)
    (hstart : base + Text.byteLength before.toList = edit.range.start)
    (hstop : edit.range.start + Text.byteLength removed.toList = edit.range.stop) :
    edit.make? base (before ++ (removed ++ after)) = some (before ++ edit.text ++ after) := by
  have hoffset : edit.range.start - base = Text.byteLength before.toList := by omega
  have hlength : edit.range.stop - edit.range.start = Text.byteLength removed.toList := by omega
  rw [make?, hoffset, hlength, String.toList_append, Text.cut?_append]
  simp only [Option.bind_eq_bind, Option.bind_some, String.toList_append, Text.cut?_append,
    String.ofList_toList, pure]

/-- Making edits in order from the last to the first gives the text written from left to right. -/
theorem makeAll?_sliceOrEmpty {source : String} {base stop : Nat} {edits : List Edit}
    (hedits : InOrder source base stop edits) (hbase : Text.IsBoundary source base)
    (hstop : Text.IsBoundary source stop) :
    makeAll? base edits (Text.sliceOrEmpty source base stop) =
      some (splice source base stop edits) := by
  induction edits with
  | nil => rfl
  | cons edit rest ih =>
    obtain ⟨hstart, hrange, hfirst, hlast, hrest⟩ := hedits
    have hbehind : base ≤ edit.range.stop := Nat.le_trans hstart hrange
    have hsplit : splice source base stop rest =
        Text.sliceOrEmpty source base edit.range.start ++
          (Text.sliceOrEmpty source edit.range.start edit.range.stop ++
            splice source edit.range.stop stop rest) := by
      rw [splice_eq_slice_append hrest hbehind hbase hlast hstop,
        ← Text.sliceOrEmpty_append source base edit.range.start edit.range.stop hstart hrange
          hbase hfirst hlast, String.append_assoc]
    rw [makeAll?, ih (hrest.weaken hbehind), Option.bind_some, hsplit]
    exact make?_append base edit _ _ _
      (Text.byteLength_sliceOrEmpty source _ _ hstart hbase hfirst)
      (Text.byteLength_sliceOrEmpty source _ _ hrange hfirst hlast)

end Edit

end Synopsis
