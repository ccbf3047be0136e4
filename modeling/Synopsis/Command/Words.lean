/-!
# Words of a command line

A command line is a list of words. A word behind two hyphens is an option, which may carry its value
behind an equals sign; otherwise the value is the next word, unless that is an option itself. Two
hyphens alone end the options. Every other word is an argument.
-/

namespace Synopsis.Command

/-- What a word is. -/
inductive Word where
  | plain
  | long (name : String) (value : Option String)
  | short
deriving DecidableEq, Repr

/-- What a text is as a word. A single hyphen is plain. -/
def Word.ofString (text : String) : Word :=
  match text.toList with
  | '-' :: '-' :: rest =>
    let name := rest.takeWhile (· ≠ '=')
    let value := match rest.drop name.length with
      | _ :: value => some (String.ofList value)
      | [] => none
    .long (String.ofList name) value
  | '-' :: _ :: _ => .short
  | _ => .plain

/-- The options that a command knows. -/
structure Vocabulary where
  /-- Options without a value. -/
  switches : List String := []
  /-- Options with a value that may be given once. -/
  single : List String := []
  /-- Options with a value that may be given any number of times. -/
  repeated : List String := []
deriving DecidableEq, Repr

/-- Whether an option takes a value. -/
def Vocabulary.takesValue (known : Vocabulary) (name : String) : Bool :=
  name ∈ known.single || name ∈ known.repeated

/-- What the words of a command line give, in their order. -/
structure Given where
  arguments : List String := []
  switches : List String := []
  values : List (String × String) := []
deriving DecidableEq, Repr

namespace Given

/-- Put an argument in front. -/
def addArgument (text : String) (given : Given) : Given :=
  { given with arguments := text :: given.arguments }

/-- Put a switch in front. -/
def addSwitch (name : String) (given : Given) : Given :=
  { given with switches := name :: given.switches }

/-- Put the value of an option in front. -/
def addValue (name value : String) (given : Given) : Given :=
  { given with values := (name, value) :: given.values }

/-- All values of an option. -/
def valuesOf (given : Given) (name : String) : List String :=
  (given.values.filter fun (option, _) => option = name).map Prod.snd

/-- The first value of an option. -/
def value? (given : Given) (name : String) : Option String := (given.valuesOf name).head?

/-- Whether a switch is given. -/
def has (given : Given) (name : String) : Bool := name ∈ given.switches

end Given

namespace Vocabulary

/-- What some words give, if every option among them is known and has a value exactly if it takes
one. -/
def readWords (known : Vocabulary) : List String → Option Given
  | [] => some {}
  | text :: rest =>
    if text = "--" then some { arguments := rest }
    else match Word.ofString text with
      | .plain => (known.readWords rest).map (·.addArgument text)
      | .short => none
      | .long name (some value) =>
        if known.takesValue name then (known.readWords rest).map (·.addValue name value) else none
      | .long name none =>
        if name ∈ known.switches then (known.readWords rest).map (·.addSwitch name)
        else if known.takesValue name then
          match rest with
          | [] => none
          | value :: others =>
            if Word.ofString value = .plain then
              (known.readWords others).map (·.addValue name value)
            else none
        else none

/-- Whether nothing that may be given once is given twice. -/
def admits (known : Vocabulary) (given : Given) : Bool :=
  decide given.switches.Nodup && known.single.all fun name => (given.valuesOf name).length ≤ 1

/-- What some words give, if the vocabulary allows all of it. -/
def read (known : Vocabulary) (words : List String) : Option Given :=
  (known.readWords words).filter known.admits

end Vocabulary

end Synopsis.Command
