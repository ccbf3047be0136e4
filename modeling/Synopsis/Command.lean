import Synopsis.Command.Words
import Synopsis.Path
import Synopsis.Text.Numeral

/-!
# Commands

What the program can be asked to do, and how a command line asks for it. A command line that asks
for nothing known has no command.
-/

namespace Synopsis

/-- What the program can be asked to do. -/
inductive Command where
  /-- Show the version. -/
  | version
  /-- Write a settings file into a directory. -/
  | init (directory : Path)
  /-- Dump the tree of a file from a node on. -/
  | dump (input : Path) (node : String) (width : Option Nat)
  /-- Summarize a node of the tree of a file. -/
  | summary (input : Path) (node : String) (skip replace : List String) (defaults bare : Bool)
  /-- List the bits of a flag table. -/
  | listFlags (table : String)
  /-- Turn a flag word into names or names into a word. -/
  | flags (table value : String)
  /-- Report whether files can be loaded. -/
  | check (inputs : List Path)
deriving DecidableEq, Repr

namespace Command

/-- The path that an argument gives, which must not be empty. -/
def pathArgument (text : String) : Option Path :=
  if text.isEmpty then none else some (Path.ofString text)

/-- The width that an option gives, if it gives one. -/
def widthArgument : Option String → Option (Option Nat)
  | none => some none
  | some text => (Text.readNumeral 10 (Nat.pow 2 64) text.toList).toOption.map some

/-- A command to write settings. -/
def readInit (words : List String) : Option Command := do
  let given ← Vocabulary.read {} words
  match given.arguments with
  | [] => some (.init (Path.ofString "."))
  | [directory] => return .init (← pathArgument directory)
  | _ => none

/-- A command to dump. -/
def readDump (words : List String) : Option Command := do
  let given ← Vocabulary.read { single := ["path", "width"] } words
  let width ← widthArgument (given.value? "width")
  match given.arguments with
  | [input] => return .dump (← pathArgument input) ((given.value? "path").getD "") width
  | _ => none

/-- A command to summarize. -/
def readSummary (words : List String) : Option Command := do
  let known : Vocabulary :=
    { switches := ["no-defaults", "bare"], single := ["path"], repeated := ["skip", "replace"] }
  let given ← known.read words
  match given.arguments with
  | [input] =>
    return .summary (← pathArgument input) ((given.value? "path").getD "") (given.valuesOf "skip")
      (given.valuesOf "replace") (!given.has "no-defaults") (given.has "bare")
  | _ => none

/-- A command about flags. A value is not needed, but allowed, where the table is listed. -/
def readFlags (words : List String) : Option Command := do
  let given ← Vocabulary.read { switches := ["list"] } words
  match given.arguments, given.has "list" with
  | [table], true => some (.listFlags table)
  | [table, _], true => some (.listFlags table)
  | [table, value], false => some (.flags table value)
  | _, _ => none

/-- A command to check files, of which there must be one at least. -/
def readCheck (words : List String) : Option Command := do
  let given ← Vocabulary.read {} words
  if given.arguments.isEmpty then none
  return .check (← given.arguments.mapM pathArgument)

/-- Whether a word asks for the version. -/
def isVersion (text : String) : Bool := text = "--version" || text.startsWith "-V"

/-- The command that the words of a command line ask for. -/
def ofWords? : List String → Option Command
  | "init" :: rest => readInit rest
  | "dump" :: rest => readDump rest
  | "summary" :: rest => readSummary rest
  | "flags" :: rest => readFlags rest
  | "check" :: rest => readCheck rest
  | first :: _ => if isVersion first then some .version else none
  | [] => none

end Command

end Synopsis
