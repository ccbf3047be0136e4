import Synopsis.Disk
import Synopsis.TreeFile.Reading

/-!
# Loading tree files

The tree of a tree file on disk. A file that cannot be read is rejected like one whose text cannot.
-/

namespace Synopsis.Tree

/-- The tree of a tree file. -/
def load {m : Type → Type} [Monad m] (files : FileAccess m) (path : Path) :
    m (Except LoadError Tree) := do
  let name := toString path
  match ← files.readText path with
  | .error fault =>
    let problem := Diagnostic.general s!"cannot read '{name}': {fault.message}"
    return .error (.rejected ⟨name, "", [problem]⟩)
  | .ok json => return parse json name

end Synopsis.Tree
