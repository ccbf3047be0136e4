import Synopsis.Proofs.Tree.Relabel

/-!
# Building is drafting

Every call to a builder does to its table what the same call does to a draft, misuses included. A
session is any list of calls, in which a misused call leaves the builder as that call had left it and
the next call goes on from there. So every builder that a session reaches is the builder of a draft,
and finishing succeeds exactly when the draft is a whole outline.
-/

namespace Synopsis

/-- The builder that a session of calls reaches, whatever calls in it are misuses. -/
def Builder.session (builder : Builder) : List BuilderCall → Builder
  | [] => builder
  | call :: rest => (builder.perform call).2.session rest

/-- The stored tree of an outline. -/
def Outline.tree (source : Source) (outline : Outline) : Tree :=
  { source, nodes := (outline.rows 0 none).toArray, root := 0 }

/-- A finished tree has the table of its builder. -/
theorem Builder.nodes_of_finish {builder : Builder} {tree : Tree} (h : builder.finish = .ok tree) :
    tree.nodes = builder.nodes := by
  unfold Builder.finish at h
  split at h
  · contradiction
  · contradiction
  · cases h
    rfl

/-- A checked range has its bounds in order. -/
theorem Range.ofBounds_eq_ok_iff (start stop : Nat) (range : Range) :
    Range.ofBounds start stop = .ok range ↔ start ≤ stop ∧ range = ⟨start, stop⟩ := by
  unfold Range.ofBounds
  split
  · next h => simp [h, eq_comm]
  · next h => simp [h]

namespace Draft

/-- Put a new node where the next node goes, unless the root is finished. -/
def put (draft : Draft) (place : List Frame → Draft) : Except Misuse Nat × Draft :=
  match draft.frames with
  | .ok frames => (.ok (Frame.total frames), place frames)
  | .error misuse => (.error misuse, draft)

/-- Put a new node without children. -/
def leaf (draft : Draft) (label : Label) : Except Misuse Nat × Draft :=
  draft.put (hang (.node label []))

/-- Start a node. -/
def startNode (draft : Draft) (kind : Kind) (start : Nat) : Except Misuse Nat × Draft :=
  draft.put (.growing ⟨⟨kind, Range.point start, false, false⟩, []⟩)

/-- Put a token. -/
def token (draft : Draft) (kind : Kind) (start stop : Nat) : Except Misuse Nat × Draft :=
  match Range.ofBounds start stop with
  | .ok range => draft.leaf ⟨kind, range, false, false⟩
  | .error fault => (.error (.range fault), draft)

/-- Close the innermost started node and hang it below the next one. -/
def finishNode (stop : Nat) : Draft → Except Misuse Unit × Draft
  | .growing inner outer =>
    match Range.ofBounds inner.label.range.start stop with
    | .ok range => (.ok (), hang (.node { inner.label with range } inner.finished) outer)
    | .error fault => (.error (.range fault), hang inner.close outer)
  | draft => (.error .nothingStarted, draft)

/-- Carry out a call. -/
def perform (draft : Draft) : BuilderCall → Except Misuse (Option Nat) × Draft
  | .startNode kind start =>
    let (answer, after) := draft.startNode kind start
    (answer.map some, after)
  | .token kind start stop =>
    let (answer, after) := draft.token kind start stop
    (answer.map some, after)
  | .synthetic kind offset =>
    let (answer, after) := draft.leaf ⟨kind, Range.point offset, true, false⟩
    (answer.map some, after)
  | .finishNode stop =>
    let (answer, after) := draft.finishNode stop
    (answer.map fun _ => none, after)
  | .markSynthetic id => (.ok none, draft.relabel (fun label => { label with synthetic := true }) id)
  | .markSealed id => (.ok none, draft.relabel (fun label => { label with sealed := true }) id)

/-- The draft that a session of calls reaches. -/
def session (draft : Draft) : List BuilderCall → Draft
  | [] => draft
  | call :: rest => (draft.perform call).2.session rest

/-- Carry out calls until one of them is a misuse. -/
def run (draft : Draft) : List BuilderCall → Except Misuse Draft
  | [] => .ok draft
  | call :: rest =>
    match draft.perform call with
    | (.ok _, after) => after.run rest
    | (.error misuse, _) => .error misuse

/-- The outline of a draft that is whole. -/
def finish : Draft → Except Misuse Outline
  | .blank => .error .noRoot
  | .growing _ _ => .error .unfinished
  | .whole outline => .ok outline

/-- Closing the innermost started node where its end is not before its start. -/
theorem finishNode_growing (inner : Frame) (outer : List Frame) (stop : Nat)
    (h : inner.label.range.start ≤ stop) :
    (Draft.growing inner outer).finishNode stop =
      (.ok (), hang (.node { inner.label with range := ⟨inner.label.range.start, stop⟩ }
        inner.finished) outer) := by
  rw [finishNode, (Range.ofBounds_eq_ok_iff _ _ _).mpr ⟨h, rfl⟩]

/-- Closing the innermost started node where its end is before its start. -/
theorem finishNode_growing_of_lt (inner : Frame) (outer : List Frame) (stop : Nat)
    (h : stop < inner.label.range.start) :
    (Draft.growing inner outer).finishNode stop =
      (.error (.range (.inverted inner.label.range.start stop)), hang inner.close outer) := by
  rw [finishNode, Range.ofBounds, if_neg (Nat.not_le.mpr h)]

/-- A token whose bounds are in order is a node without children. -/
theorem token_of_le (draft : Draft) (kind : Kind) {start stop : Nat} (h : start ≤ stop) :
    draft.token kind start stop = draft.leaf ⟨kind, ⟨start, stop⟩, false, false⟩ := by
  rw [token, (Range.ofBounds_eq_ok_iff _ _ _).mpr ⟨h, rfl⟩]

/-- A token whose bounds are not in order is refused. -/
theorem token_of_lt (draft : Draft) (kind : Kind) {start stop : Nat} (h : stop < start) :
    draft.token kind start stop = (.error (.range (.inverted start stop)), draft) := by
  rw [token, Range.ofBounds, if_neg (Nat.not_le.mpr h)]

variable (source : Source)

/-- The builder of a draft in which an outline is hung below started nodes. -/
theorem builder_hang (outline : Outline) (frames : List Frame) :
    (hang outline frames).builder source =
      { source
        nodes := (Frame.linkedRows frames ++
          outline.rows (Frame.total frames) (Frame.innermost? frames)).toArray
        started := Frame.ids frames
        root := some 0 } := by
  rw [builder, rows_hang, started_hang, root?_hang]

/-- Linking a new node to the innermost started one. -/
theorem modify_rows_link (inner : Frame) (outer : List Frame) :
    (Draft.growing inner outer).rows.modify (Frame.total outer)
        (fun above => { above with children := above.children ++ [Frame.total (inner :: outer)] }) =
      Frame.linkedRows (inner :: outer) := by
  rw [modify_rows_growing, Frame.linkedRows]
  rfl

/-- Adding a node to a table is putting a node without children into a draft. -/
theorem push_builder (draft : Draft) (kind : Kind) (range : Range) (synthetic : Bool) :
    (draft.builder source).push kind range synthetic =
      ((draft.leaf ⟨kind, range, synthetic, false⟩).1,
        (draft.leaf ⟨kind, range, synthetic, false⟩).2.builder source) := by
  cases draft with
  | blank => rfl
  | whole outline => rfl
  | growing inner outer =>
    have hsize : (Draft.growing inner outer).rows.toArray.size = Frame.total (inner :: outer) := by
      rw [List.size_toArray, length_rows_growing]
    rw [leaf, put, frames, builder_hang, builder, started, Frame.ids, Builder.push]
    simp only [hsize]
    congr 2
    apply Array.toList_inj.mp
    rw [Array.toList_push, Array.toList_modify, modify_rows_link]
    rfl

/-- Starting a node in a table is starting it in a draft. -/
theorem startNode_builder (draft : Draft) (kind : Kind) (start : Nat) :
    (draft.builder source).startNode kind start =
      ((draft.startNode kind start).1, (draft.startNode kind start).2.builder source) := by
  rw [Builder.startNode, push_builder, leaf, put, startNode, put]
  cases hframes : draft.frames with
  | error misuse => rfl
  | ok frames =>
    simp only [builder_hang]
    rfl

/-- Adding a token to a table is putting it into a draft. -/
theorem token_builder (draft : Draft) (kind : Kind) (start stop : Nat) :
    (draft.builder source).token kind start stop =
      ((draft.token kind start stop).1, (draft.token kind start stop).2.builder source) := by
  rw [Builder.token, token]
  cases Range.ofBounds start stop with
  | ok range => exact push_builder source draft kind range false
  | error fault => rfl

/-- Closing a node in a table is closing it in a draft. -/
theorem finishNode_builder (draft : Draft) (stop : Nat) :
    (draft.builder source).finishNode stop =
      ((draft.finishNode stop).1, (draft.finishNode stop).2.builder source) := by
  cases draft with
  | blank => rfl
  | whole outline => rfl
  | growing inner outer =>
    have hrow : (Draft.growing inner outer).rows.toArray[Frame.total outer]? =
        some (inner.label.row (Frame.innermost? outer)
          (Outline.rootIds (Frame.total outer + 1) inner.finished)) := by
      rw [List.getElem?_toArray, getElem?_rows_growing]
    by_cases hle : inner.label.range.start ≤ stop
    · have hbounds := (Range.ofBounds_eq_ok_iff _ _ _).mpr ⟨hle, rfl⟩
      rw [finishNode_growing inner outer stop hle, builder_hang, Builder.finishNode, builder, started,
        Frame.ids]
      simp only [hrow, Label.row, hbounds]
      congr 2
      apply Array.toList_inj.mp
      rw [Array.toList_modify, modify_rows_growing]
      rfl
    · have hbounds : Range.ofBounds inner.label.range.start stop =
          .error (.inverted inner.label.range.start stop) := if_neg hle
      rw [finishNode_growing_of_lt inner outer stop (Nat.lt_of_not_le hle), builder_hang,
        Builder.finishNode, builder, started, Frame.ids]
      simp only [hrow, Label.row, hbounds]
      rfl

/-- Marking a node in a table is relabelling it in a draft. -/
theorem modify_builder (draft : Draft) (id : Nat) (f : Label → Label) :
    { draft.builder source with nodes := (draft.builder source).nodes.modify id (Node.relabel f) } =
      (draft.relabel f id).builder source := by
  simp only [builder, started_relabel, root?_relabel, rows_relabel]
  congr 1
  apply Array.toList_inj.mp
  rw [Array.toList_modify]

/-- Every call does the same to a table as to a draft. -/
theorem perform_builder (draft : Draft) (call : BuilderCall) :
    (draft.builder source).perform call =
      ((draft.perform call).1, (draft.perform call).2.builder source) := by
  cases call with
  | startNode kind start => rw [Builder.perform, startNode_builder]; rfl
  | token kind start stop => rw [Builder.perform, token_builder]; rfl
  | synthetic kind offset => rw [Builder.perform, Builder.synthetic, push_builder]; rfl
  | finishNode stop => rw [Builder.perform, finishNode_builder]; rfl
  | markSynthetic id =>
    exact congrArg (Prod.mk _) (modify_builder source draft id fun label =>
      { label with synthetic := true })
  | markSealed id =>
    exact congrArg (Prod.mk _) (modify_builder source draft id fun label => { label with sealed := true })

/-- Every session reaches the builder of the draft that it reaches. -/
theorem session_builder (draft : Draft) (calls : List BuilderCall) :
    (draft.builder source).session calls = (draft.session calls).builder source := by
  induction calls generalizing draft with
  | nil => rfl
  | cons call rest ih => rw [Builder.session, perform_builder, ih, session]

/-- Calls that are no misuses of a table are none of a draft, and the other way round. -/
theorem run_builder (draft : Draft) (calls : List BuilderCall) :
    (draft.builder source).run calls = (draft.run calls).map (builder source) := by
  induction calls generalizing draft with
  | nil => rfl
  | cons call rest ih =>
    rw [Builder.run, perform_builder, run]
    rcases draft.perform call with ⟨answer, after⟩
    cases answer with
    | ok number => exact ih after
    | error misuse => rfl

/-- Finishing a builder gives the stored tree of its draft's outline. -/
theorem finish_builder (draft : Draft) :
    (draft.builder source).finish = draft.finish.map (Outline.tree source) := by
  cases draft <;> rfl

/-- A new builder is that of the blank draft. -/
theorem builder_blank : blank.builder source = Builder.new source := rfl

/-- A draft whose builder is finished is whole. -/
theorem eq_whole_of_finish {source : Source} {draft : Draft} {tree : Tree}
    (h : (draft.builder source).finish = .ok tree) :
    ∃ outline, draft = .whole outline ∧ tree = outline.tree source := by
  rw [finish_builder] at h
  cases draft with
  | blank => cases h
  | growing inner outer => cases h
  | whole outline =>
    cases h
    exact ⟨outline, rfl, rfl⟩

/-- A tree that is finished was a whole draft. -/
theorem exists_whole_of_finish {source : Source} {calls : List BuilderCall} {builder : Builder}
    {tree : Tree} (hrun : (Builder.new source).run calls = .ok builder)
    (hfinish : builder.finish = .ok tree) :
    ∃ outline, blank.run calls = .ok (.whole outline) ∧ tree = outline.tree source := by
  rw [← builder_blank, run_builder] at hrun
  cases hdraft : blank.run calls with
  | error misuse => rw [hdraft] at hrun; cases hrun
  | ok draft =>
    rw [hdraft] at hrun
    cases hrun
    obtain ⟨outline, rfl, htree⟩ := eq_whole_of_finish hfinish
    exact ⟨outline, rfl, htree⟩

/-- A tree that is finished after a session is the stored tree of an outline. -/
theorem exists_tree_of_session {source : Source} {calls : List BuilderCall} {tree : Tree}
    (h : ((Builder.new source).session calls).finish = .ok tree) :
    ∃ outline : Outline, tree = outline.tree source := by
  rw [← builder_blank, session_builder] at h
  obtain ⟨outline, -, htree⟩ := eq_whole_of_finish h
  exact ⟨outline, htree⟩

end Draft

end Synopsis
