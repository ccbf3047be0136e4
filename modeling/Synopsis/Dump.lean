import Synopsis.Host
import Synopsis.Source
import Synopsis.Text.Preview

/-!
# Tree dumps

A dump has one line for each node that can be reached through listed children, in pre-order, with
the name of the node's kind and a preview of its text. Each level is indented by two spaces more.
-/

namespace Synopsis.Host

/-- The width of a preview unless another is asked for. -/
def previewWidth : Nat := 100

/-- What stands in the place of a text that the host does not give. -/
def textUnavailable : String := "(error getting text)"

/-- The line of one node. -/
def dumpLine (indent : String) (width : Nat) (node : Host) : String :=
  let shown := match node.text with
    | .ok text => Text.preview text width
    | .error _ => textUnavailable
  s!"{indent}{node.kindName}: [{shown}]\n"

mutual

/-- The lines of a node and of everything visible below it. -/
def dump (indent : String) (width : Nat) : Host → String
  | .node tag range text (some refusal) offspring =>
    dumpLine indent width (.node tag range text (some refusal) offspring)
  | .node tag range text none offspring =>
    dumpLine indent width (.node tag range text none offspring) ++
      dumpAll (indent ++ "  ") width offspring

/-- The lines of a list of nodes. -/
def dumpAll (indent : String) (width : Nat) : List Host → String
  | [] => ""
  | first :: rest => first.dump indent width ++ dumpAll indent width rest

end

/-- The file and line at which a node starts. -/
def location (source : Source) (node : Host) : String := source.location node.range.start

end Synopsis.Host
