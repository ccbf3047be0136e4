import Synopsis.Command.Run

/-!
# The program

The command line over the files of the system.
-/

namespace Synopsis

/-- What an error of the system says about a file. -/
def DiskFault.ofSystem : IO.Error → DiskFault
  | .noFileOrDirectory _ _ _ => .notFound
  | .alreadyExists _ _ _ => .alreadyExists
  | .inappropriateType _ code details =>
    if code = 20 then .notADirectory else if code = 21 then .isADirectory else .other details
  | error => .other (toString error)

/-- Do something with a file and keep what goes wrong. -/
def attempt (work : IO α) : IO (Except DiskFault α) := do
  try return .ok (← work) catch error => return .error (.ofSystem error)

/-- The files of the system. -/
def systemFiles : FileAccess IO where
  readText path := do
    match ← attempt (IO.FS.readBinFile (toString path)) with
    | .error fault => return .error fault
    | .ok bytes =>
      match String.fromUTF8? bytes with
      | some text => return .ok text
      | none => return .error .notText
  isPresent path := do
    return (← attempt (IO.FS.Handle.mk (toString path) .read)).toOption.isSome
  makeDirectories path := attempt (IO.FS.createDirAll (toString path))
  writeText path text := attempt (IO.FS.writeFile (toString path) text)

end Synopsis

/-- Run the command that the command line asks for. -/
def main (words : List String) : IO UInt32 := do
  let outcome ← Synopsis.Command.runWords Synopsis.systemFiles words
  (← IO.getStdout).putStr outcome.output
  (← IO.getStderr).putStr outcome.messages
  return outcome.status.code
