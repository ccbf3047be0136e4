import Synopsis.Proofs.Tree.Links
import Synopsis.Proofs.Tree.Phrase

/-!
# A builder accepts exactly the phrases

Calls that a builder has carried out without misuse are the beginning of a phrase: the nodes that are
still started have each read their start and the phrases of some children. The reading of such a
beginning determines the draft, and each further call extends it. When nothing is left started the
beginning is a whole phrase, so finishing succeeds for phrases only, and the table unfolds to the tree
that the phrase describes.
-/

namespace Synopsis

/-- A node of which the start and the phrases of some children have been read. -/
structure Opening where
  kind : Kind
  start : Nat
  parts : List Phrase

namespace Opening

/-- The started node of an opening. -/
def frame (opening : Opening) : Frame :=
  ⟨⟨opening.kind, Range.point opening.start, false, false⟩, Phrase.outlineAll opening.parts⟩

/-- The calls of openings, the innermost of them given first. -/
def calls : List Opening → List BuilderCall
  | [] => []
  | opening :: outer =>
    calls outer ++ .startNode opening.kind opening.start :: Phrase.callsAll opening.parts

/-- Whether no range below openings is inverted. -/
def Ordered (openings : List Opening) : Prop :=
  ∀ opening ∈ openings, Phrase.OrderedAll opening.parts

end Opening

/-- A beginning of a phrase. -/
inductive Reading where
  | blank
  | within (inner : Opening) (outer : List Opening)
  | whole (phrase : Phrase)

namespace Reading

/-- The draft that a reading leads to. -/
def draft : Reading → Draft
  | .blank => .blank
  | .within inner outer => .growing inner.frame (outer.map Opening.frame)
  | .whole phrase => .whole phrase.outline

/-- The calls that have been read. -/
def calls : Reading → List BuilderCall
  | .blank => []
  | .within inner outer => Opening.calls (inner :: outer)
  | .whole phrase => phrase.calls

/-- Whether no range that has been read is inverted. -/
def Ordered : Reading → Prop
  | .blank => True
  | .within inner outer => Opening.Ordered (inner :: outer)
  | .whole phrase => phrase.Ordered

/-- Read a phrase below openings, or as the whole where there are none. -/
def hang (phrase : Phrase) : List Opening → Reading
  | [] => .whole phrase
  | opening :: outer => .within { opening with parts := opening.parts ++ [phrase] } outer

/-- Reading a phrase hangs the tree that it describes. -/
theorem draft_hang (phrase : Phrase) (openings : List Opening) :
    (hang phrase openings).draft = Draft.hang phrase.outline (openings.map Opening.frame) := by
  cases openings with
  | nil => rfl
  | cons opening outer =>
    change Draft.growing ⟨_, Phrase.outlineAll (opening.parts ++ [phrase])⟩ _ = _
    rw [Phrase.outlineAll_append]
    rfl

/-- Reading a phrase reads its calls. -/
theorem calls_hang (phrase : Phrase) (openings : List Opening) :
    (hang phrase openings).calls = Opening.calls openings ++ phrase.calls := by
  cases openings with
  | nil => rfl
  | cons opening outer =>
    change Opening.calls outer ++ _ :: Phrase.callsAll (opening.parts ++ [phrase]) = _
    rw [Phrase.callsAll_append, Phrase.callsAll, Phrase.callsAll, Opening.calls, List.append_nil,
      List.append_assoc, List.cons_append]

/-- Reading an ordered phrase below ordered openings inverts no range. -/
theorem ordered_hang (phrase : Phrase) (openings : List Opening) (hphrase : phrase.Ordered)
    (hopenings : Opening.Ordered openings) : (hang phrase openings).Ordered := by
  cases openings with
  | nil => exact hphrase
  | cons opening outer =>
    intro other hother
    rcases List.mem_cons.mp hother with rfl | houter
    · have hparts := hopenings opening List.mem_cons_self
      exact (Phrase.orderedAll_append _ _).mpr ⟨hparts, hphrase, trivial⟩
    · exact hopenings other (List.mem_cons_of_mem _ houter)

/-- Where a node can be put, the reading consists of openings. -/
theorem openings_of_put {reading : Reading} {place : List Frame → Draft} {number : Nat}
    {after : Draft} (hordered : reading.Ordered)
    (hput : reading.draft.put place = (.ok number, after)) :
    ∃ openings : List Opening, Opening.Ordered openings ∧ reading.calls = Opening.calls openings ∧
      after = place (openings.map Opening.frame) := by
  cases reading with
  | blank =>
    cases hput
    exact ⟨[], fun _ h => absurd h List.not_mem_nil, rfl, rfl⟩
  | within inner outer =>
    cases hput
    exact ⟨inner :: outer, hordered, rfl, rfl⟩
  | whole phrase => cases hput

/-- A step whose reworded answer is no misuse is none itself. -/
theorem step_of_map_ok {α : Type} {step : Except Misuse α × Draft} {reword : α → Option Nat}
    {answer : Option Nat} {after : Draft}
    (h : (step.1.map reword, step.2) = (.ok answer, after)) : ∃ result, step = (.ok result, after) := by
  obtain ⟨outcome, reached⟩ := step
  cases outcome with
  | ok result =>
    simp only [Prod.mk.injEq] at h
    exact ⟨result, by rw [h.2]⟩
  | error misuse => simp [Except.map] at h

/-- A leaf that is put extends the reading by its phrase. -/
theorem extension_of_leaf {reading : Reading} {phrase : Phrase} {label : Label} {number : Nat}
    {after : Draft} (hordered : reading.Ordered) (hphrase : phrase.Ordered)
    (houtline : phrase.outline = .node label [])
    (hleaf : reading.draft.leaf label = (.ok number, after)) :
    ∃ next : Reading, next.Ordered ∧ next.draft = after ∧
      next.calls = reading.calls ++ phrase.calls := by
  obtain ⟨openings, hopenings, hcalls, rfl⟩ := openings_of_put hordered hleaf
  refine ⟨hang phrase openings, ordered_hang phrase openings hphrase hopenings, ?_, ?_⟩
  · rw [draft_hang, houtline]
  · rw [calls_hang, hcalls]

/-- The end of the innermost opening extends the reading by the phrase of its node. -/
theorem extension_of_finishNode {reading : Reading} {stop : Nat} {after : Draft}
    (hordered : reading.Ordered) (hfinish : reading.draft.finishNode stop = (.ok (), after)) :
    ∃ next : Reading, next.Ordered ∧ next.draft = after ∧
      next.calls = reading.calls ++ [.finishNode stop] := by
  cases reading with
  | blank => cases hfinish
  | whole phrase => cases hfinish
  | within inner outer =>
    have houter : Opening.Ordered outer := fun other hother =>
      hordered other (List.mem_cons_of_mem _ hother)
    have hparts : Phrase.OrderedAll inner.parts := hordered inner List.mem_cons_self
    by_cases hle : inner.start ≤ stop
    · change (Draft.growing inner.frame (outer.map Opening.frame)).finishNode stop = _ at hfinish
      rw [Draft.finishNode_growing inner.frame _ stop hle] at hfinish
      cases hfinish
      refine ⟨hang (.interior inner.kind inner.start stop inner.parts) outer,
        ordered_hang _ outer ?_ houter, ?_, ?_⟩
      · rw [Phrase.Ordered]
        exact ⟨hle, hparts⟩
      · rw [draft_hang, Phrase.outline]
        rfl
      · rw [calls_hang, Phrase.calls, calls, Opening.calls, List.append_assoc, List.cons_append]
    · change (Draft.growing inner.frame (outer.map Opening.frame)).finishNode stop = _ at hfinish
      rw [Draft.finishNode_growing_of_lt inner.frame _ stop (Nat.lt_of_not_le hle)] at hfinish
      cases hfinish

/-- A call other than a mark that is carried out extends the reading by itself. -/
theorem exists_extension (reading : Reading) (call : BuilderCall) (answer : Option Nat) (after : Draft)
    (hordered : reading.Ordered) (hmark : call.isMark = false)
    (hperform : reading.draft.perform call = (.ok answer, after)) :
    ∃ next : Reading, next.Ordered ∧ next.draft = after ∧ next.calls = reading.calls ++ [call] := by
  cases call with
  | startNode kind start =>
    obtain ⟨number, hput⟩ := step_of_map_ok hperform
    obtain ⟨openings, hopenings, hcalls, rfl⟩ := openings_of_put hordered hput
    refine ⟨.within ⟨kind, start, []⟩ openings, ?_, rfl, ?_⟩
    · intro opening hopening
      rcases List.mem_cons.mp hopening with rfl | houter
      · trivial
      · exact hopenings opening houter
    · rw [hcalls]
      rfl
  | token kind start stop =>
    obtain ⟨number, htoken⟩ := step_of_map_ok hperform
    change reading.draft.token kind start stop = _ at htoken
    by_cases hle : start ≤ stop
    · rw [Draft.token_of_le reading.draft kind hle] at htoken
      have hphrase : (Phrase.token kind start stop).Ordered := by rw [Phrase.Ordered]; exact hle
      obtain ⟨next, hnext, hdraft, hcalls⟩ :=
        extension_of_leaf hordered hphrase (by rw [Phrase.outline]) htoken
      exact ⟨next, hnext, hdraft, by rw [hcalls, Phrase.calls]⟩
    · rw [Draft.token_of_lt reading.draft kind (Nat.lt_of_not_le hle)] at htoken
      cases htoken
  | synthetic kind offset =>
    obtain ⟨number, hleaf⟩ := step_of_map_ok hperform
    have hphrase : (Phrase.synthetic kind offset).Ordered := by rw [Phrase.Ordered]; trivial
    obtain ⟨next, hnext, hdraft, hcalls⟩ :=
      extension_of_leaf hordered hphrase (by rw [Phrase.outline]; rfl) hleaf
    exact ⟨next, hnext, hdraft, by rw [hcalls, Phrase.calls]⟩
  | finishNode stop =>
    obtain ⟨result, hfinish⟩ := step_of_map_ok hperform
    exact extension_of_finishNode hordered hfinish
  | markSynthetic id => contradiction
  | markSealed id => contradiction

/-- Calls other than marks that are carried out extend the reading by themselves. -/
theorem exists_extension_of_run (reading : Reading) (calls : List BuilderCall) (after : Draft)
    (hordered : reading.Ordered) (hmarks : ∀ call ∈ calls, call.isMark = false)
    (hrun : reading.draft.run calls = .ok after) :
    ∃ next : Reading, next.Ordered ∧ next.draft = after ∧ next.calls = reading.calls ++ calls := by
  induction calls generalizing reading with
  | nil =>
    simp only [Draft.run, Except.ok.injEq] at hrun
    exact ⟨reading, hordered, hrun, (List.append_nil _).symm⟩
  | cons call rest ih =>
    rw [Draft.run] at hrun
    rcases hperform : reading.draft.perform call with ⟨answer, reached⟩
    rw [hperform] at hrun
    cases answer with
    | error misuse => cases hrun
    | ok answer =>
      obtain ⟨next, hnext, rfl, hcalls⟩ := exists_extension reading call answer reached hordered
        (hmarks call List.mem_cons_self) hperform
      obtain ⟨last, hlast, hdraft, hall⟩ := ih next hnext
        (fun other hother => hmarks other (List.mem_cons_of_mem _ hother)) hrun
      refine ⟨last, hlast, hdraft, ?_⟩
      rw [hall, hcalls, List.append_assoc, List.singleton_append]

end Reading

/-- The calls of an ordered phrase make a whole draft of the tree that it describes. -/
theorem Phrase.run_calls (phrase : Phrase) (hordered : phrase.Ordered) :
    Draft.blank.run phrase.calls = .ok (.whole phrase.outline) := by
  have hrun := run_calls_append phrase hordered .blank [] rfl []
  rw [List.append_nil] at hrun
  exact hrun

/-- Calls other than marks that make a whole draft are those of an ordered phrase. -/
theorem Phrase.exists_of_run (calls : List BuilderCall) (outline : Outline)
    (hmarks : ∀ call ∈ calls, call.isMark = false)
    (hrun : Draft.blank.run calls = .ok (.whole outline)) :
    ∃ phrase : Phrase, phrase.Ordered ∧ phrase.calls = calls := by
  obtain ⟨reading, hordered, hdraft, hcalls⟩ :=
    Reading.exists_extension_of_run .blank calls (.whole outline) trivial hmarks hrun
  cases reading with
  | blank => cases hdraft
  | within inner outer => cases hdraft
  | whole phrase => exact ⟨phrase, hordered, hcalls⟩

/-- The stored tree of an outline unfolds to it. -/
theorem Outline.outline?_tree (source : Source) (outline : Outline) :
    (outline.tree source).outline? (outline.tree source).root = some outline := by
  have hfills : outline.Fills (outline.tree source).nodes := outline.fills_rows
  exact outlineWithin_of_stored _ outline 0 _ none hfills.stored (Nat.le_of_eq hfills.size_eq.symm)

/-- A builder carries out calls other than marks and finishes exactly when they are the calls of a
phrase without inverted ranges, and the finished table then unfolds to the tree of the phrase and holds
no other node. -/
theorem finishes_iff_phrase (source : Source) (calls : List BuilderCall)
    (hmarks : ∀ call ∈ calls, call.isMark = false) :
    ((∃ builder tree, (Builder.new source).run calls = .ok builder ∧ builder.finish = .ok tree) ↔
        ∃ phrase : Phrase, phrase.Ordered ∧ phrase.calls = calls) ∧
      ∀ (builder : Builder) (tree : Tree) (phrase : Phrase),
        (Builder.new source).run calls = .ok builder → builder.finish = .ok tree →
        phrase.Ordered → phrase.calls = calls →
          tree.source = source ∧ tree.size = phrase.outline.size ∧
            tree.outline? tree.root = some phrase.outline := by
  refine ⟨⟨?_, ?_⟩, ?_⟩
  · rintro ⟨builder, tree, hrun, hfinish⟩
    obtain ⟨outline, hwhole, -⟩ := Draft.exists_whole_of_finish hrun hfinish
    exact Phrase.exists_of_run calls outline hmarks hwhole
  · rintro ⟨phrase, hordered, rfl⟩
    refine ⟨(Draft.whole phrase.outline).builder source, phrase.outline.tree source, ?_, rfl⟩
    rw [← Draft.builder_blank, Draft.run_builder, phrase.run_calls hordered]
    rfl
  · rintro builder tree phrase hrun hfinish hordered rfl
    obtain ⟨outline, hwhole, rfl⟩ := Draft.exists_whole_of_finish hrun hfinish
    rw [phrase.run_calls hordered] at hwhole
    cases hwhole
    exact ⟨rfl, phrase.outline.fills_rows.size_eq, Outline.outline?_tree source phrase.outline⟩

/-- A node with a token, a synthetic leaf and a node below it. -/
theorem finishes_nested_block :
    let calls : List BuilderCall :=
      [.startNode .block 0, .token .openBraceToken 0 1, .synthetic .identifier 1,
        .startNode .syntaxList 1, .finishNode 3, .finishNode 4]
    (∀ call ∈ calls, call.isMark = false) ∧
      ∃ builder tree, (Builder.new ⟨"a.ts", "{ }"⟩).run calls = .ok builder ∧
        builder.finish = .ok tree ∧
        tree.outline? tree.root = some (.node ⟨.block, ⟨0, 4⟩, false, false⟩
          [.node ⟨.openBraceToken, ⟨0, 1⟩, false, false⟩ [],
            .node ⟨.identifier, ⟨1, 1⟩, true, false⟩ [],
            .node ⟨.syntaxList, ⟨1, 3⟩, false, false⟩ []]) := by
  intro calls
  have hmarks : ∀ call ∈ calls, call.isMark = false := by decide
  let phrase : Phrase := .interior .block 0 4
    [.token .openBraceToken 0 1, .synthetic .identifier 1, .interior .syntaxList 1 3 []]
  have hordered : phrase.Ordered := by simp [phrase, Phrase.Ordered, Phrase.OrderedAll]
  have hcalls : phrase.calls = calls := by simp [phrase, calls, Phrase.calls, Phrase.callsAll]
  obtain ⟨hfinishes, hunfolds⟩ := finishes_iff_phrase ⟨"a.ts", "{ }"⟩ calls hmarks
  obtain ⟨builder, tree, hrun, hfinish⟩ := hfinishes.mpr ⟨phrase, hordered, hcalls⟩
  obtain ⟨-, -, houtline⟩ := hunfolds builder tree phrase hrun hfinish hordered hcalls
  refine ⟨hmarks, builder, tree, hrun, hfinish, ?_⟩
  rw [houtline]
  simp [phrase, Phrase.outline, Phrase.outlineAll]

end Synopsis
