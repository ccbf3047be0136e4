import Synopsis.Disk
import Synopsis.Settings.Reading

/-!
# Finding settings

Settings stand in a file of a fixed name. It is looked for in a directory, then in the one above it,
and so on upwards; the nearest one wins, whatever it holds.
-/

namespace Synopsis.Settings

/-- The name of a settings file. -/
def fileName : String := "spanfmt.toml"

/-- The places where a settings file is looked for, nearest first. -/
def candidates (start : Path) : List Path := start.ancestors.map (·.join fileName)

/-- The nearest settings file. -/
def find? {m : Type → Type} [Monad m] (isPresent : Path → m Bool) (start : Path) :
    m (Option Path) :=
  (candidates start).findM? isPresent

/-- The settings in a file. -/
def load {m : Type → Type} [Monad m] (files : FileAccess m) (path : Path) :
    m (Except SettingsFault Settings) := do
  match ← files.readText path with
  | .error fault => return .error (.unreadable (toString path) fault.message)
  | .ok text => return parse text

end Synopsis.Settings
