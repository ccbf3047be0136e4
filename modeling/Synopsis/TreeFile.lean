import Synopsis.Tree.Builder
import Synopsis.Tree.Layout

/-!
# Tree files

A tree file holds a source and nested entries, each with the name of its kind, its bounds and its
children. Loading checks every entry, builds the tree that the entries describe, and checks its
layout. The problems of the first check that finds any are all reported; none of them hides another.
-/

namespace Synopsis

/-- A node as a tree file describes it. -/
inductive Entry where
  | entry (kind : String) (start stop : Nat) (children : List Entry) (synthetic sealed : Bool)

/-- A source with the entry of its root. -/
structure TreeFile where
  source : Source
  root : Entry

/-- Something wrong with an entry on its own. -/
inductive EntryProblem where
  | unknownKind (name : String) (range : Range)
  | inverted (name : String) (range : Range)
deriving DecidableEq, Repr

/-- An entry's problem in words, its range brought into a text of the given length. -/
def EntryProblem.diagnostic (length : Nat) : EntryProblem → Diagnostic
  | .unknownKind name range =>
    { message := s!"unknown node kind '{name}'"
      range := range.clampTo length
      notes := ["kind names are case-sensitive, e.g. 'ClassDeclaration'"] }
  | .inverted name range =>
    { message := s!"{name} ends at {range.stop} before it starts at {range.start}"
      range := range.clampTo length }

namespace Entry

/-- The problems of one entry, leaving its children aside. -/
def ownProblems (kind : String) (range : Range) : List EntryProblem :=
  (if (Kind.ofName? kind).isNone then [.unknownKind kind range] else []) ++
    (if range.stop < range.start then [.inverted kind range] else [])

mutual

/-- The problems of an entry and of everything below it, in pre-order. -/
def problems : Entry → List EntryProblem
  | .entry kind start stop children _ _ =>
    ownProblems kind ⟨start, stop⟩ ++ problemsAll children

/-- The problems of a list of entries. -/
def problemsAll : List Entry → List EntryProblem
  | [] => []
  | first :: rest => first.problems ++ problemsAll rest

end

mutual

/-- Add the node of an entry to a builder, with everything below it. A synthetic entry without children has no
end of its own. Marks go to the number with which the builder answered. Nothing is added for an unknown
kind. -/
def addTo (builder : Builder) : Entry → Except Misuse Builder
  | .entry name start stop children synthetic sealed =>
    match Kind.ofName? name with
    | none => .ok builder
    | some kind => do
      let (id, added) ←
        if synthetic && children.isEmpty then Builder.carriedOut (builder.synthetic kind start)
        else do
          let (id, started) ← Builder.carriedOut (builder.startNode kind start)
          let filled ← addAllTo started children
          let (_, finished) ← Builder.carriedOut (filled.finishNode stop)
          pure (id, if synthetic then finished.markSynthetic id else finished)
      pure (if sealed then added.markSealed id else added)

/-- Add the nodes of a list of entries to a builder. -/
def addAllTo (builder : Builder) : List Entry → Except Misuse Builder
  | [] => .ok builder
  | first :: rest => do
    let added ← first.addTo builder
    addAllTo added rest

end

end Entry

/-- Why a tree cannot be loaded, with the text that the diagnostics point into. -/
structure LoadReport where
  sourceName : String
  source : String
  diagnostics : List Diagnostic
deriving DecidableEq, Repr

/-- The outcome of a load that gives no tree: the file is rejected, or the builder was misused. -/
inductive LoadError where
  | rejected (report : LoadReport)
  | misused (misuse : Misuse)
deriving DecidableEq, Repr

/-- The diagnostics of a load that gives no tree. -/
def LoadError.diagnostics : LoadError → List Diagnostic
  | .rejected report => report.diagnostics
  | .misused misuse => [Diagnostic.general misuse.message]

/-- The diagnostics of a load that gives no tree, in lines. -/
def LoadError.render : LoadError → String
  | .rejected report => String.join (report.diagnostics.map (·.render report.sourceName))
  | .misused misuse => s!"misuse: {misuse.message}\n"

namespace TreeFile

/-- Reject a tree file for some problems. -/
def reject (file : TreeFile) (diagnostics : List Diagnostic) : LoadError :=
  .rejected ⟨file.source.name, file.source.text, diagnostics⟩

/-- The tree that the entries of a file describe. -/
def assemble (file : TreeFile) : Except Misuse Tree := do
  let builder ← file.root.addTo (Builder.new file.source)
  builder.finish

/-- The tree of a file, if its entries and its layout have no problems. -/
def load (file : TreeFile) : Except LoadError Tree :=
  match file.root.problems with
  | [] =>
    match file.assemble with
    | .error misuse => .error (.misused misuse)
    | .ok tree =>
      match tree.problems with
      | [] => .ok tree
      | problems =>
        .error (file.reject (problems.map (LayoutProblem.diagnostic file.source.length)))
  | problems => .error (file.reject (problems.map (EntryProblem.diagnostic file.source.length)))

end TreeFile

end Synopsis
