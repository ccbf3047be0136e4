import Synopsis.Path

/-!
# Files and directories

What a program can ask of the files around it, and a store of files and directories that answers.
Every piece of a path is looked up in turn, so a path through something that is no directory, or
that does not exist, is refused even where a later piece leads back out of it.
-/

namespace Synopsis

/-- Why a file or directory is not available. -/
inductive DiskFault where
  | notFound
  | alreadyExists
  | notADirectory
  | isADirectory
  | notText
  | nameTooLong
  /-- A name holds the character with the number zero. -/
  | nameBroken
  /-- Any other reason, in the words of the system. -/
  | other (reason : String)
deriving DecidableEq, Repr

/-- The wording of a fault. -/
def DiskFault.message : DiskFault → String
  | .notFound => "No such file or directory (os error 2)"
  | .alreadyExists => "File exists (os error 17)"
  | .notADirectory => "Not a directory (os error 20)"
  | .isADirectory => "Is a directory (os error 21)"
  | .notText => "stream did not contain valid UTF-8"
  | .nameTooLong => "File name too long (os error 36)"
  | .nameBroken => "file name contained an unexpected NUL byte"
  | .other reason => reason

/-- What a program asks of the files around it. -/
structure FileAccess (m : Type → Type) where
  /-- The text of a file. -/
  readText : Path → m (Except DiskFault String)
  /-- Whether there is anything at a path. -/
  isPresent : Path → m Bool
  /-- Make a directory and those above it that are missing. -/
  makeDirectories : Path → m (Except DiskFault Unit)
  /-- Write a text to a file. -/
  writeText : Path → String → m (Except DiskFault Unit)

/-- What is at a place on a disk. -/
inductive Content where
  | directory
  | file (bytes : ByteArray)

instance : DecidableEq Content
  | .directory, .directory => .isTrue rfl
  | .directory, .file _ => .isFalse nofun
  | .file _, .directory => .isFalse nofun
  | .file left, .file right =>
    match ByteArray.instDecidableEq left right with
    | .isTrue h => .isTrue (congrArg Content.file h)
    | .isFalse h => .isFalse fun same => h (Content.file.inj same)

/-- Places, each given by the names that lead to it from the top, with what is there, and the place
from which relative paths start. -/
structure Disk where
  entries : List (List String × Content)
  workplace : List String
deriving DecidableEq

namespace Disk

/-- What is at a place. The top is always a directory. -/
def lookup? (disk : Disk) (place : List String) : Option Content :=
  if place.isEmpty then some .directory
  else (disk.entries.find? fun (known, _) => known = place).map Prod.snd

/-- Put something at a place. -/
def put (disk : Disk) (place : List String) (content : Content) : Disk :=
  { disk with
    entries := disk.entries.filter (fun (known, _) => known ≠ place) ++ [(place, content)] }

/-- The greatest number of bytes in a name. -/
def longestName : Nat := 255

/-- The place that pieces of a path lead to from another. -/
def walk (disk : Disk) (place : List String) : List String → Except DiskFault (List String)
  | [] => .ok place
  | piece :: rest =>
    match disk.lookup? place with
    | none => .error .notFound
    | some (.file _) => .error .notADirectory
    | some .directory =>
      if Path.isIdle piece then disk.walk place rest
      else if piece = ".." then disk.walk place.dropLast rest
      else if longestName < piece.utf8ByteSize then .error .nameTooLong
      else if (disk.lookup? (place ++ [piece])).isSome then disk.walk (place ++ [piece]) rest
      else .error .notFound

/-- The place from which a path starts. -/
def origin (disk : Disk) (path : Path) : List String := if path.rooted then [] else disk.workplace

/-- The greatest number of bytes in a path. -/
def longestPath : Nat := 4095

/-- Why a path is refused before any piece of it is looked up. -/
def refusal? (path : Path) : Option DiskFault :=
  if path.pieces.any (·.contains '\x00') then some .nameBroken
  else if longestPath < (toString path).utf8ByteSize then some .nameTooLong
  else if path.isEmpty then some .notFound
  else none

/-- What is at a path. The empty path leads nowhere. -/
def contentAt (disk : Disk) (path : Path) : Except DiskFault Content := do
  if let some fault := refusal? path then throw fault
  let place ← disk.walk (disk.origin path) path.pieces
  match disk.lookup? place with
  | some content => return content
  | none => throw .notFound

/-- Whether there is anything at a path. -/
def isPresent (disk : Disk) (path : Path) : Bool := (disk.contentAt path).toOption.isSome

/-- Whether there is a directory at a path. -/
def isDirectory (disk : Disk) (path : Path) : Bool :=
  match disk.contentAt path with
  | .ok .directory => true
  | _ => false

/-- The text of a file. -/
def readText (disk : Disk) (path : Path) : Except DiskFault String := do
  match ← disk.contentAt path with
  | .directory => throw .isADirectory
  | .file bytes =>
    match String.fromUTF8? bytes with
    | some text => return text
    | none => throw .notText

/-- The place of a new entry: that of its directory and its own name. Slashes at the end do not
count. A name that stands for a directory itself is taken already. -/
def newPlace (disk : Disk) (path : Path) : Except DiskFault (List String) := do
  if let some fault := refusal? path then throw fault
  match path.pieces.reverse.dropWhile (· = "") with
  | [] => throw (if path.rooted then .alreadyExists else .notFound)
  | name :: above =>
    let parent ← disk.walk (disk.origin path) above.reverse
    match disk.lookup? parent with
    | none => throw .notFound
    | some (.file _) => throw .notADirectory
    | some .directory =>
      if name = "." ∨ name = ".." then throw .alreadyExists
      if longestName < name.utf8ByteSize then throw .nameTooLong
      return parent ++ [name]

/-- Make one directory in another that exists. -/
def makeDirectory (disk : Disk) (path : Path) : Except DiskFault Disk := do
  let place ← disk.newPlace path
  if (disk.lookup? place).isSome then throw .alreadyExists
  return disk.put place .directory

/-- Make a directory and those above it that are missing. Those that were made stay if a later one
cannot be. -/
def makeDirectories (disk : Disk) (path : Path) : Except DiskFault Unit × Disk :=
  if path.isEmpty then (.ok (), disk)
  else match disk.makeDirectory path with
    | .ok made => (.ok (), made)
    | .error .notFound =>
      match _h : path.parent? with
      | none => (.error .notFound, disk)
      | some up =>
        match disk.makeDirectories up with
        | (.error fault, after) => (.error fault, after)
        | (.ok (), after) =>
          match after.makeDirectory path with
          | .ok made => (.ok (), made)
          | .error fault => (if after.isDirectory path then .ok () else .error fault, after)
    | .error fault => (if disk.isDirectory path then .ok () else .error fault, disk)
termination_by path.pieces.length
decreasing_by exact Path.length_pieces_lt_of_parent? _h

/-- Write a text to a file, which need not exist before. -/
def writeText (disk : Disk) (path : Path) (text : String) : Except DiskFault Disk := do
  let place ← disk.newPlace path
  match disk.lookup? place with
  | some .directory => throw .isADirectory
  | _ => return disk.put place (.file text.toUTF8)

/-- A disk as the files around a program. -/
def access : FileAccess (StateM Disk) where
  readText path := do return (← get).readText path
  isPresent path := do return (← get).isPresent path
  makeDirectories path := do
    let (answer, after) := (← get).makeDirectories path
    set after
    return answer
  writeText path text := do
    match (← get).writeText path text with
    | .ok after =>
      set after
      return .ok ()
    | .error fault => return .error fault

end Disk

end Synopsis
