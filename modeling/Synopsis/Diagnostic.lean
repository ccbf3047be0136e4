import Synopsis.Range

/-!
# Diagnostics

What a reader is told about a problem: a message, the bytes it is about, and advice. Modules that
find problems keep them as causes of their own and word them as diagnostics only at the end.
-/

namespace Synopsis

/-- A message about a range of a text, with notes and an optional piece of advice. -/
structure Diagnostic where
  message : String
  range : Range
  notes : List String := []
  help : Option String := none
deriving DecidableEq, Repr

/-- A diagnostic that is about no particular part of a text. -/
def Diagnostic.general (message : String) : Diagnostic := { message, range := Range.point 0 }

/-- A diagnostic in lines for a reader of the named text. -/
def Diagnostic.render (name : String) (diagnostic : Diagnostic) : String :=
  let range := diagnostic.range
  let headline := s!"in {name} at {range.start}..{range.stop}: {diagnostic.message}\n"
  let notes := diagnostic.notes.map fun note => s!"  note: {note}\n"
  let help := diagnostic.help.toList.map fun help => s!"  help: {help}\n"
  headline ++ String.join (notes ++ help)

end Synopsis
