import Synopsis.Kind
import Synopsis.Range
import Synopsis.Source
import Synopsis.Diagnostic
import Synopsis.Summary
import Synopsis.Dump
import Synopsis.Text.Preview
import Synopsis.Text.Numeral
import Synopsis.Tree.Builder
import Synopsis.Tree.Layout
import Synopsis.Tree.Summary
import Synopsis.TreeFile.Reading
import Synopsis.Flags.Reading
import Synopsis.Tree.Path
import Synopsis.Settings.Discovery
import Synopsis.TreeFile.Loading
import Synopsis.Main
import Synopsis.Proofs.Text.Edit
import Synopsis.Proofs.Span.Reformat
import Synopsis.Proofs.Span.Mirror
import Synopsis.Proofs.Span.Splice
import Synopsis.Proofs.Tree.Draft
import Synopsis.Proofs.Tree.Relabel
import Synopsis.Proofs.Tree.Session
import Synopsis.Proofs.Tree.Phrase
import Synopsis.Proofs.Tree.Acceptance
import Synopsis.Proofs.Tree.Links
import Synopsis.Proofs.Tree.Arena
import Synopsis.Proofs.Text.Pieces
import Synopsis.Proofs.Span.Plain
import Synopsis.Proofs.Tree.Placement
import Synopsis.Proofs.TreeFile.Faithful
import Synopsis.Proofs.Tree.Laminar
import Synopsis.Proofs.TreeFile.Entries
import Synopsis.Proofs.Numbering
import Synopsis.Proofs.Settings.Precedence
import Synopsis.Proofs.Kind
import Synopsis.Proofs.TreeFile.Exact
import Synopsis.Proofs.TreeFile.Flaws
import Synopsis.Proofs.Host.Reach
import Synopsis.Proofs.Host.Lines
import Synopsis.Proofs.Span.Links
import Synopsis.Proofs.Span.Preorder
import Synopsis.Proofs.Span.Layers
import Synopsis.Proofs.Span.Context
import Synopsis.Proofs.Span.Passes
import Synopsis.Proofs.Span.Reduction
import Synopsis.Proofs.Text.Omission
import Synopsis.Proofs.TreeFile.Reports
import Synopsis.Proofs.Span.Leaf
import Synopsis.Proofs.Tree.SyntheticLeaf
import Synopsis.Proofs.Text.LineStarts
import Synopsis.Proofs.Text.Position
import Synopsis.Proofs.Text.LineColumn
import Synopsis.Proofs.Tree.Paths
import Synopsis.Proofs.Tree.SummaryPaths
import Synopsis.Proofs.Text.Runs
import Synopsis.Proofs.Text.Preview
import Synopsis.Proofs.Flags.Names
import Synopsis.Proofs.Flags.Values
import Synopsis.Proofs.Tree.PathTexts
import Synopsis.Proofs.Settings.Discovery
