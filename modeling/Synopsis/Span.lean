import Synopsis.Host

/-!
# Spans

A summary of a host tree has one span for each node, and each span carries a modification that says how
its text is to be written.
-/

namespace Synopsis

/-- How the text of a span is written. -/
inductive Modification where
  /-- As it stands in the source. -/
  | keep
  /-- Not at all. -/
  | skipAll
  /-- As it stands, except for the text of the children. -/
  | skipChildren
  /-- As another text. -/
  | replace (text : String)
deriving DecidableEq, Inhabited, Repr

/-- A span: its number, its node with the range that it covers, the numbers of the spans above and directly
below it, and its modification. -/
structure Span where
  id : Nat
  node : Host
  range : Range
  parent : Option Nat
  children : List Nat
  modification : Modification

end Synopsis
