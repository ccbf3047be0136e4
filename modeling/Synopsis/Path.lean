import Synopsis.Text.Words

/-!
# File paths

A path is kept as it is written, in pieces between slashes. Empty pieces and points do not count as
components, except for a point in front of a relative path. Going up drops the last component and
whatever does not count before it; it never looks at what is on disk.
-/

namespace Synopsis

/-- A path as it is written: whether it starts with a slash, and the pieces between the others. -/
structure Path where
  rooted : Bool
  pieces : List String
deriving DecidableEq, Repr

namespace Path

/-- The path that a text denotes. -/
def ofString (text : String) : Path :=
  let split (chars : List Char) : List String :=
    if chars.isEmpty then [] else (Text.splitWhere (· = '/') chars).map String.ofList
  match text.toList with
  | '/' :: rest => ⟨true, split rest⟩
  | chars => ⟨false, split chars⟩

instance : ToString Path :=
  ⟨fun path => (if path.rooted then "/" else "") ++ "/".intercalate path.pieces⟩

/-- Whether a path has no text at all. -/
def isEmpty (path : Path) : Bool := !path.rooted && path.pieces.isEmpty

/-- Whether a piece behind the first does not count as a component. -/
def isIdle (piece : String) : Bool := piece = "" || piece = "."

/-- Drop the pieces that do not count from the end of a path, whose pieces are given in reverse
order. The first piece of a relative path always counts. -/
def dropIdle (rooted : Bool) : List String → List String
  | [] => []
  | [first] => if rooted && isIdle first then [] else [first]
  | piece :: rest => if isIdle piece then dropIdle rooted rest else piece :: rest

/-- Dropping pieces does not add any. -/
theorem length_dropIdle_le (rooted : Bool) (pieces : List String) :
    (dropIdle rooted pieces).length ≤ pieces.length := by
  fun_induction dropIdle rooted pieces <;> simp_all; omega

/-- The path without its last component. -/
def parent? (path : Path) : Option Path :=
  match dropIdle path.rooted path.pieces.reverse with
  | [] => none
  | _ :: rest => some ⟨path.rooted, (dropIdle path.rooted rest).reverse⟩

/-- Going up leaves fewer pieces. -/
theorem length_pieces_lt_of_parent? {path up : Path} (h : path.parent? = some up) :
    up.pieces.length < path.pieces.length := by
  unfold parent? at h
  split at h
  · contradiction
  · rename_i last rest hdrop
    obtain rfl := Option.some.inj h
    have hall := length_dropIdle_le path.rooted path.pieces.reverse
    have hrest := length_dropIdle_le path.rooted rest
    simp only [hdrop, List.length_cons, List.length_reverse] at hall ⊢
    omega

/-- A path and all those above it, nearest first. -/
def ancestors (path : Path) : List Path :=
  path :: match _h : path.parent? with
    | some up => up.ancestors
    | none => []
termination_by path.pieces.length
decreasing_by exact length_pieces_lt_of_parent? _h

/-- The path of a name in a directory. -/
def join (directory : Path) (name : String) : Path :=
  match directory.pieces.getLast? with
  | some "" => { directory with pieces := directory.pieces.dropLast ++ [name] }
  | _ => { directory with pieces := directory.pieces ++ [name] }

end Path

end Synopsis
