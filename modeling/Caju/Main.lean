import Caju.CommandLine.Dialogue

/-! The compiler as a program: the dialogue of the command line, carried through
with the files of the machine. -/

namespace Caju.CommandLine

/-- An error by its number, or in the machine's own words. -/
def fileErrorOfCode (code : UInt32) (reason : String) : FileError :=
  if code = 2 then .notFound
  else if code = 20 then .notDirectory
  else if code = 21 then .isDirectory
  else if code = 36 then .nameTooLong
  else if code = 40 then .tooManyLinks
  else .other (reason ++ " (os error " ++ toString code ++ ")")

/-- What an error of the machine amounts to. -/
def fileErrorOf : IO.Error → FileError
  | .noFileOrDirectory _ code reason => fileErrorOfCode code reason
  | .inappropriateType _ code reason => fileErrorOfCode code reason
  | .invalidArgument _ code reason => fileErrorOfCode code reason
  | .permissionDenied _ code reason => fileErrorOfCode code reason
  | .resourceExhausted _ code reason => fileErrorOfCode code reason
  | error => .other (toString error)

def attempt {α : Type} (action : IO α) : IO (Except FileError α) := do
  try return .ok (← action)
  catch error => return .error (fileErrorOf error)

/-- Carries a dialogue through on the machine. -/
def Dialogue.perform : Dialogue → IO Output
  | .done output => pure output
  | .read path next => do
    let content ← attempt (IO.FS.withFile path.shown .read fun handle => handle.readBinToEnd)
    (next content).perform
  | .write path content next => do (next (← attempt (IO.FS.writeFile path.shown content))).perform

end Caju.CommandLine

def main (args : List String) : IO UInt32 := do
  let output ← (Caju.CommandLine.start (args.map .ofString)).perform
  IO.print output.stdout
  IO.eprint output.stderr
  return output.code.toUInt32
