import Synopsis.Settings

/-!
# The settings template

A settings file to start from, which spells out the standard settings.
-/

namespace Synopsis.Settings

/-- The text of a settings file that changes nothing. -/
def template : String := String.join [
  "[summary]\n",
  "# Start from the built-in rules (drop JSDocComment and DeclareKeyword).\n",
  "defaults = true\n",
  "skip = []\n",
  "skip_children = []\n",
  "\n",
  "[summary.replace]\n",
  "# Block = \"\x7b ... \x7d\"\n",
  "\n",
  "[dump]\n",
  "preview_width = 100\n"]

end Synopsis.Settings
