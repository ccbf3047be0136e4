import Synopsis.Text.Numeral
import Synopsis.Text.Words

/-!
# Paths in text

A path is written as child indices with points between them; the empty text is the path to the root.
-/

namespace Synopsis.Tree

/-- A piece of a written path that is no child index. -/
structure PathFault where
  piece : String
  path : String
deriving DecidableEq, Repr

/-- The wording of a path's fault. -/
def PathFault.message (fault : PathFault) : String :=
  s!"invalid child index '{fault.piece}' in path '{fault.path}'"

/-- The indices that the pieces of a path denote, below 2 ^ 64 each. -/
def readIndices (path : String) : List (List Char) → Except PathFault (List Nat)
  | [] => .ok []
  | piece :: rest =>
    match Text.readNumeral 10 (Nat.pow 2 64) piece with
    | .error _ => .error ⟨String.ofList piece, path⟩
    | .ok index => do return index :: (← readIndices path rest)

/-- The path that a text denotes. -/
def readPath (text : String) : Except PathFault (List Nat) :=
  if text.isEmpty then .ok [] else readIndices text (Text.splitWhere (· = '.') text.toList)

end Synopsis.Tree
