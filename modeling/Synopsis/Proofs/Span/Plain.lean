import Synopsis.Proofs.Span.Arena
import Synopsis.Proofs.Text.Pieces

/-!
# Plain summaries

A summary without rules leaves every span unmodified. Whatever the ranges of a host tree are, its
unmodified spans write the text between the ends of the root in pieces, cut at the ends of every node
below the root. So a plain summary is those pieces, collapsed.
-/

namespace Synopsis

namespace Host

mutual

/-- The ends of the nodes of a host tree, in the order in which composition meets them. -/
def cuts : Host → List Nat
  | .node _ range _ _ offspring => range.start :: (cutsAll offspring ++ [range.stop])

/-- The ends of the nodes of a list of host trees, in the order in which composition meets them. -/
def cutsAll : List Host → List Nat
  | [] => []
  | host :: hosts => host.cuts ++ cutsAll hosts

end

/-- The ends that composition meets are those of the node and of the nodes below it. -/
theorem mem_cuts_iff (host : Host) (cut : Nat) :
    cut ∈ host.cuts ↔
      cut = host.range.start ∨ cut ∈ cutsAll host.offspring ∨ cut = host.range.stop := by
  cases host with
  | node tag range text withheld offspring =>
    rw [cuts, List.mem_cons, List.mem_append, List.mem_singleton]
    rfl

/-- Whether a node covers whole characters of a text and the ends of the nodes below it stand in
ascending order within its range. -/
structure Spread (text : String) (host : Host) : Prop where
  ascending : Text.Ascending host.range.start host.range.stop (cutsAll host.offspring)
  start_boundary : Text.IsBoundary text host.range.start
  stop_boundary : Text.IsBoundary text host.range.stop

end Host

namespace SpanTree

mutual

/-- Unmodified spans write the text of their range in pieces. -/
theorem compose_ofHost (text : String) (host : Host) :
    (ofHost host).compose text =
      Text.pieces text host.range.start host.range.stop (Host.cutsAll host.offspring) := by
  cases host with
  | node tag range hostText withheld offspring =>
    rw [ofHost, compose]
    exact stitch_ofHosts text range.start range.stop offspring

/-- Unmodified children and the gaps around them write the text in pieces. -/
theorem stitch_ofHosts (text : String) (cursor stop : Nat) (hosts : List Host) :
    stitch text false cursor stop (ofHosts hosts) =
      Text.pieces text cursor stop (Host.cutsAll hosts) := by
  cases hosts with
  | nil => rfl
  | cons host hosts =>
    have hcomposed := compose_ofHost text host
    have hrest := stitch_ofHosts text host.range.stop stop hosts
    have hrange : (ofHost host).range = host.range := (mirrors_ofHost host).range_eq
    rw [ofHosts, stitch, hrange, hcomposed, hrest, Host.cutsAll]
    cases host with
    | node tag range hostText withheld offspring =>
      rw [Host.cuts, List.cons_append, List.append_assoc, List.singleton_append, Text.pieces,
        Text.pieces_append_cons, ← String.append_assoc]
      rfl

end

/-- Unmodified spans write the slice of a spread node exactly when all ends below it are boundaries. -/
theorem compose_ofHost_eq_iff {text : String} {host : Host} (h : host.Spread text) :
    (ofHost host).compose text = Text.sliceOrEmpty text host.range.start host.range.stop ↔
      ∀ cut ∈ host.cuts, Text.IsBoundary text cut := by
  rw [compose_ofHost,
    Text.pieces_eq_sliceOrEmpty_iff text h.ascending h.start_boundary h.stop_boundary]
  constructor
  · intro hbelow cut hcut
    rcases (host.mem_cuts_iff cut).mp hcut with rfl | hcut | rfl
    · exact h.start_boundary
    · exact hbelow cut hcut
    · exact h.stop_boundary
  · intro hall cut hcut
    exact hall cut ((host.mem_cuts_iff cut).mpr (Or.inr (Or.inl hcut)))

/-- An end inside a character that is not blank shows in what unmodified spans write, even collapsed. -/
theorem collapse_compose_ofHost_ne {text : String} {host : Host} (h : host.Spread text) {cut : Nat}
    (hcut : cut ∈ host.cuts) {before : List Char} {c : Char} (hsplits : Text.Splits text before c cut)
    (hc : Text.isBlank c = false) :
    Text.collapse ((ofHost host).compose text) ≠
      Text.collapse (Text.sliceOrEmpty text host.range.start host.range.stop) := by
  have hbelow : cut ∈ Host.cutsAll host.offspring := by
    rcases (host.mem_cuts_iff cut).mp hcut with rfl | hcut | rfl
    · exact absurd h.start_boundary hsplits.not_isBoundary
    · exact hcut
    · exact absurd h.stop_boundary hsplits.not_isBoundary
  have hlost := Text.weight_pieces_lt Text.ink h.ascending h.start_boundary h.stop_boundary hbelow hsplits
    (by rw [Text.ink_of_not_blank hc]; exact Nat.one_pos)
  intro hsame
  rw [← compose_ofHost, ← Text.weight_collapse Text.ink Text.ink_of_blank, hsame,
    Text.weight_collapse Text.ink Text.ink_of_blank] at hlost
  exact absurd hlost (Nat.lt_irrefl _)

section Keeping

variable {σ : Type} {visitor : σ → Span → σ × Modification}

mutual

/-- A visitor that keeps every modification leaves a tree as it is. -/
theorem visitFrom_eq_self (hkeeps : ∀ state span, visitor state span = (state, span.modification))
    (tree : SpanTree) (id : Nat) (parent : Option Nat) (state : σ) :
    visitFrom visitor id parent state tree = (state, tree) := by
  cases tree with
  | span node modification children =>
    simp only [visitFrom, hkeeps, visitFromAll_eq_self hkeeps children (id + 1) id state]

/-- A visitor that keeps every modification leaves trees as they are. -/
theorem visitFromAll_eq_self (hkeeps : ∀ state span, visitor state span = (state, span.modification))
    (trees : List SpanTree) (next parent : Nat) (state : σ) :
    visitFromAll visitor next parent state trees = (state, trees) := by
  cases trees with
  | nil => rfl
  | cons tree trees =>
    simp only [visitFromAll, visitFrom_eq_self hkeeps tree next (some parent) state,
      visitFromAll_eq_self hkeeps trees (next + tree.size) parent state]

end

end Keeping

end SpanTree

/-- Without rules every span keeps its modification. -/
theorem Rules.apply_empty (span : Span) : Rules.empty.apply span = span.modification := by
  unfold Rules.apply
  cases span.node.kind? with
  | none => rfl
  | some kind => rfl

/-- The plain summary of a tree whose children are all listed is what its unmodified spans write,
collapsed. -/
theorem Host.summary_empty (text : String) (host : Host) (hlisted : host.Listed) :
    host.summary text Rules.empty =
      .ok (Text.collapse ((SpanTree.ofHost host).compose text)) := by
  have hbuild := (SpanTree.build_eq_ok_iff host _).mpr ⟨hlisted, rfl⟩
  have hkeeps : ∀ (state : Unit) (span : Span),
      ((), Rules.empty.apply span) = (state, span.modification) := by
    intro state span
    rw [Rules.apply_empty]
  have hvisit := SpanTree.visitFrom_eq_self hkeeps (SpanTree.ofHost host) 0 none ()
  simp only [summary, summaryWith_eq_nested, nestedSummaryWith, hbuild, SpanTree.visit, hvisit, SpanTree.modifiedText]

end Synopsis
