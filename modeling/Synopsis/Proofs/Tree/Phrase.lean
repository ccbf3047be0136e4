import Synopsis.Proofs.Tree.Session
import Synopsis.Proofs.Tree.Unfold

/-!
# The language of a builder

A phrase is a derivation of the calls that describe one tree: a token, a synthetic leaf, or the start
of a node, the phrases of its children and its end. A builder carries out the calls of a phrase and
finishes exactly when no range of the phrase is inverted, and no other calls make it finish. Marks are
no part of the language; what they do to a table is relabelling.
-/

namespace Synopsis

/-- Whether a call marks a node that is already there. -/
def BuilderCall.isMark : BuilderCall → Bool
  | .markSynthetic _ => true
  | .markSealed _ => true
  | _ => false

/-- A derivation of the calls that describe a tree. -/
inductive Phrase where
  | token (kind : Kind) (start stop : Nat)
  | synthetic (kind : Kind) (offset : Nat)
  | interior (kind : Kind) (start stop : Nat) (parts : List Phrase)

namespace Phrase

mutual

/-- The calls of a phrase. -/
def calls : Phrase → List BuilderCall
  | .token kind start stop => [.token kind start stop]
  | .synthetic kind offset => [.synthetic kind offset]
  | .interior kind start stop parts =>
    .startNode kind start :: (callsAll parts ++ [.finishNode stop])

/-- The calls of a list of phrases. -/
def callsAll : List Phrase → List BuilderCall
  | [] => []
  | phrase :: rest => phrase.calls ++ callsAll rest

end

mutual

/-- Whether no range in a phrase is inverted. -/
def Ordered : Phrase → Prop
  | .token _ start stop => start ≤ stop
  | .synthetic _ _ => True
  | .interior _ start stop parts => start ≤ stop ∧ OrderedAll parts

/-- Whether no range in a list of phrases is inverted. -/
def OrderedAll : List Phrase → Prop
  | [] => True
  | phrase :: rest => phrase.Ordered ∧ OrderedAll rest

end

mutual

/-- The tree that a phrase describes. -/
def outline : Phrase → Outline
  | .token kind start stop => .node ⟨kind, ⟨start, stop⟩, false, false⟩ []
  | .synthetic kind offset => .node ⟨kind, ⟨offset, offset⟩, true, false⟩ []
  | .interior kind start stop parts =>
    .node ⟨kind, ⟨start, stop⟩, false, false⟩ (outlineAll parts)

/-- The trees that a list of phrases describes. -/
def outlineAll : List Phrase → List Outline
  | [] => []
  | phrase :: rest => phrase.outline :: outlineAll rest

end

/-- The calls of two lists in a row follow one another. -/
theorem callsAll_append (left right : List Phrase) :
    callsAll (left ++ right) = callsAll left ++ callsAll right := by
  induction left with
  | nil => rfl
  | cons phrase left ih => rw [List.cons_append, callsAll, callsAll, ih, List.append_assoc]

/-- The trees of two lists in a row follow one another. -/
theorem outlineAll_append (left right : List Phrase) :
    outlineAll (left ++ right) = outlineAll left ++ outlineAll right := by
  induction left with
  | nil => rfl
  | cons phrase left ih => rw [List.cons_append, outlineAll, outlineAll, ih, List.cons_append]

/-- The ranges of two lists in a row are checked separately. -/
theorem orderedAll_append (left right : List Phrase) :
    OrderedAll (left ++ right) ↔ OrderedAll left ∧ OrderedAll right := by
  induction left with
  | nil => simp [OrderedAll]
  | cons phrase left ih => simp only [List.cons_append, OrderedAll, ih, and_assoc]

mutual

/-- Carrying out the calls of an ordered phrase hangs its tree where the next node goes. -/
theorem run_calls_append (phrase : Phrase) (hordered : phrase.Ordered) (draft : Draft)
    (frames : List Frame) (hframes : draft.frames = .ok frames) (rest : List BuilderCall) :
    draft.run (phrase.calls ++ rest) = (Draft.hang phrase.outline frames).run rest := by
  cases phrase with
  | token kind start stop =>
    rw [Ordered] at hordered
    rw [calls, List.singleton_append, Draft.run, Draft.perform, Draft.token_of_le draft kind hordered,
      Draft.leaf, Draft.put, hframes]
    rfl
  | synthetic kind offset =>
    rw [calls, List.singleton_append, Draft.run, Draft.perform, Draft.leaf, Draft.put, hframes]
    rfl
  | interior kind start stop parts =>
    rw [Ordered] at hordered
    obtain ⟨hrange, hparts⟩ := hordered
    rw [calls, List.cons_append, Draft.run, Draft.perform, Draft.startNode, Draft.put, hframes]
    change Draft.run _ (callsAll parts ++ [.finishNode stop] ++ rest) = _
    rw [List.append_assoc, run_callsAll_append parts hparts, List.singleton_append, Draft.run,
      Draft.perform, Draft.finishNode_growing _ _ _ hrange]
    rfl

/-- Carrying out the calls of ordered phrases puts their trees below the innermost started node. -/
theorem run_callsAll_append (phrases : List Phrase) (hordered : OrderedAll phrases) (inner : Frame)
    (outer : List Frame) (rest : List BuilderCall) :
    (Draft.growing inner outer).run (callsAll phrases ++ rest) =
      (Draft.growing ⟨inner.label, inner.finished ++ outlineAll phrases⟩ outer).run rest := by
  cases phrases with
  | nil => rw [callsAll, outlineAll, List.append_nil]; rfl
  | cons phrase phrases =>
    obtain ⟨hfirst, hrest⟩ := hordered
    rw [callsAll, List.append_assoc, run_calls_append phrase hfirst _ (inner :: outer) rfl]
    change (Draft.growing (inner.add phrase.outline) outer).run _ = _
    rw [run_callsAll_append phrases hrest, outlineAll, Frame.add, List.append_assoc,
      List.singleton_append]

end

end Phrase

end Synopsis
