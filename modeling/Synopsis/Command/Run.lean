import Synopsis.Command
import Synopsis.Flags.Reading
import Synopsis.Settings.Discovery
import Synopsis.Settings.Template
import Synopsis.Tree.Path
import Synopsis.Tree.Summary
import Synopsis.TreeFile.Loading

/-!
# Running commands

What a command does with the files around it, and what it tells. Settings come before the tree, and
the tree before the path into it, so of several faults the first in this order is reported.
-/

namespace Synopsis.Command

/-- How a run ends. -/
inductive Status where
  | success
  | failure
  /-- The command line asks for nothing known. -/
  | misuse
deriving DecidableEq, Repr

/-- The exit code of a status. -/
def Status.code : Status → UInt32
  | .success => 0
  | .failure => 1
  | .misuse => 2

/-- What a run leaves: its output, its messages, and how it ended. -/
structure Outcome where
  output : String := ""
  messages : String := ""
  status : Status := .success
deriving DecidableEq, Repr

/-- A message about a failure. -/
def errorLine (message : String) : String := s!"error: {message}\n"

/-- What is shown for a command line without a command. -/
def usage : String := String.join [
  "usage: spanfmt init [DIR]\n",
  "       spanfmt dump INPUT [--path PATH] [--width WIDTH]\n",
  "       spanfmt summary INPUT [--path PATH] [--skip KIND]... [--replace KIND=TEXT]...\n",
  "                       [--no-defaults] [--bare]\n",
  "       spanfmt flags TABLE [VALUE] [--list]\n",
  "       spanfmt check INPUT...\n"]

variable {m : Type → Type} [Monad m]

/-- The outcome of work that gives output or fails with messages. -/
def outcomeOf (work : ExceptT String m String) : m Outcome := do
  match ← work.run with
  | .ok output => return { output }
  | .error messages => return { messages, status := .failure }

/-- The directory in which the search for the settings of a tree file starts. -/
def settingsStart (input : Path) : Path :=
  match input.parent? with
  | some up => if up.isEmpty then Path.ofString "." else up
  | none => Path.ofString "."

/-- The settings in force for a tree file. -/
def settingsFor (files : FileAccess m) (input : Path) : ExceptT String m Settings := do
  let found : Option Path ← liftM (Settings.find? files.isPresent (settingsStart input))
  match found with
  | none => return Settings.standard
  | some path =>
    let loaded : Except SettingsFault Settings ← liftM (Settings.load files path)
    match loaded with
    | .ok settings => return settings
    | .error (.unreadable name reason) =>
      throw (errorLine (SettingsFault.unreadable name reason).diagnostic.message)
    | .error fault => throw (fault.diagnostic.render (toString path))

/-- The tree of a file. -/
def treeOf (files : FileAccess m) (input : Path) : ExceptT String m Tree := do
  let loaded : Except LoadError Tree ← liftM (Tree.load files input)
  match loaded with
  | .ok tree => return tree
  | .error fault => throw (fault.render ++ errorLine s!"cannot load '{input}'")

/-- The path to a node that a text denotes. -/
def nodePath (text : String) : ExceptT String m (List Nat) :=
  match Tree.readPath text with
  | .ok path => return path
  | .error fault => throw (errorLine fault.message)

/-- The node at a path, with everything below it. -/
def hostAt? (tree : Tree) (path : List Nat) : Option Host := tree.at? path >>= tree.host?

/-- Dump the tree of a file from a node on. -/
def runDump (files : FileAccess m) (input : Path) (node : String) (width : Option Nat) :
    ExceptT String m String := do
  let settings ← settingsFor files input
  let tree ← treeOf files input
  let path ← nodePath node
  match hostAt? tree path with
  | none => throw (errorLine s!"no node at path {showPath path} in '{input}'")
  | some host => return host.dump "" (width.getD settings.previewWidth)

/-- The rules of the command line over others. -/
def overridden (base : Rules) (skip replace : List String) : ExceptT String m Rules :=
  match base.override skip replace with
  | .ok rules => return rules
  | .error fault => throw (errorLine fault.diagnostic.message)

/-- The rules for a summary of the tree of a file. -/
def rulesFor (files : FileAccess m) (input : Path) (skip replace : List String) (defaults : Bool) :
    ExceptT String m Rules := do
  let base ← if defaults then Settings.rules <$> settingsFor files input else pure Rules.empty
  overridden base skip replace

/-- Summarize a node of the tree of a file. -/
def runSummary (files : FileAccess m) (input : Path) (node : String) (skip replace : List String)
    (defaults bare : Bool) : ExceptT String m String := do
  let rules ← rulesFor files input skip replace defaults
  let tree ← treeOf files input
  let path ← nodePath node
  match tree.summarizeAt path rules, hostAt? tree path with
  | .error fault, _ => throw (errorLine fault.diagnostic.message)
  | .ok text, none => return if bare then text ++ "\n" else ""
  | .ok text, some host =>
    return if bare then text ++ "\n" else s!"{text} {host.location tree.source}\n"

/-- The flag table with a name. -/
def tableOf (name : String) : Except String FlagTable :=
  match FlagTable.ofName? name with
  | some table => .ok table
  | none =>
    .error (errorLine s!"unknown flag table '{name}' (expected 'symbol' or 'type')")

/-- The bits of a flag table with their names, a line each. -/
def runListFlags (name : String) : Except String String := do
  let table ← tableOf name
  let lines := table.entries.map fun (bit, name) =>
    s!"  0x{Text.hexDigits 8 bit.toNat}  {name}\n"
  return s!"{table.name}:\n" ++ String.join lines

/-- The names in a flag word, or the word for some names. -/
def runFlags (name value : String) : Except String String := do
  let table ← tableOf name
  let answer :=
    if FlagTable.isNumeric value then (FlagTable.readValue value).map table.format
    else (table.readNames value).map fun word => s!"{Text.hexNumeral word.toNat} ({word.toNat})"
  match answer with
  | .ok line => return line ++ "\n"
  | .error fault => throw (errorLine fault.message)

/-- Whether a file can be loaded, with what is told about it. -/
def checkFile (files : FileAccess m) (input : Path) : m (Bool × String) := do
  match ← Tree.load files input with
  | .ok tree => return (true, s!"OK: {input} ({tree.size} nodes)\n")
  | .error fault =>
    let count := fault.diagnostics.length
    return (false, fault.render ++ errorLine s!"'{input}' has {count} problem(s)")

/-- Report on every file. -/
def runCheck (files : FileAccess m) (inputs : List Path) : m Outcome := do
  let reports ← inputs.mapM (checkFile files)
  return {
    messages := String.join (reports.map Prod.snd)
    status := if reports.all Prod.fst then .success else .failure }

/-- Write a settings file into a directory that has none. -/
def writeSettings (files : FileAccess m) (directory : Path) : ExceptT String m String := do
  match ← files.makeDirectories directory with
  | .error fault =>
    throw (errorLine s!"cannot create directory '{directory}': {fault.message}")
  | .ok () => pure ()
  let path := directory.join Settings.fileName
  if ← files.isPresent path then throw (errorLine s!"'{path}' already exists")
  match ← files.writeText path Settings.template with
  | .error fault => throw (errorLine s!"cannot write '{path}': {fault.message}")
  | .ok () => return s!"Created {path}\n"

/-- Write a settings file; all that is told are messages. -/
def runInit (files : FileAccess m) (directory : Path) : m Outcome := do
  let outcome ← outcomeOf (writeSettings files directory)
  return { outcome with output := "", messages := outcome.messages ++ outcome.output }

/-- What a command does. -/
def run (files : FileAccess m) : Command → m Outcome
  | .version => return { output := "spanfmt 0.1.0\n" }
  | .init directory => runInit files directory
  | .dump input node width => outcomeOf (runDump files input node width)
  | .summary input node skip replace defaults bare =>
    outcomeOf (runSummary files input node skip replace defaults bare)
  | .listFlags table => outcomeOf (ExceptT.mk (pure (runListFlags table)))
  | .flags table value => outcomeOf (ExceptT.mk (pure (runFlags table value)))
  | .check inputs => runCheck files inputs

/-- What the program does for the words of a command line. -/
def runWords (files : FileAccess m) (words : List String) : m Outcome :=
  match ofWords? words with
  | some command => command.run files
  | none => return { messages := usage, status := .misuse }

end Synopsis.Command
