import Confinement.Command

/-!
# The program

Reads the arguments and the file they name, prints the answer, and ends with `0`, with `1` if the
request fails, or with `2` if the arguments are no proper use.
-/
namespace Confinement

/-- Failures that share a constructor are told apart by the number of the error. -/
def readFailure : IO.Error → ReadFailure
  | .noFileOrDirectory .. => .notFound
  | .inappropriateType _ 20 _ => .notDirectory
  | .inappropriateType .. => .isDirectory
  | .invalidArgument _ 36 _ => .nameTooLong
  | .permissionDenied _ 13 _ => .notPermitted
  | e => .stated (toString e)

def readText (path : String) : IO (Except ReadFailure String) := do
  try
    let bytes ← IO.FS.readBinFile path
    match String.fromUTF8? bytes with
    | some text => return .ok text
    | none => return .error .notText
  catch e => return .error (readFailure e)

def freshGuid : IO Emission.Guid := do
  let bytes ← IO.getRandomBytes 16
  return ⟨BitVec.ofNat 128 (bytes.foldl (fun n b => 256 * n + b.toNat) 0)⟩

end Confinement

open Confinement in
def main (args : List String) : IO UInt32 := do
  match Command.parse? args with
  | none =>
    IO.eprintln "Usage: membrane <COMMAND>"
    return 2
  | some request =>
    let content ← match request.path? with
      | some path => readText path
      | none => pure (.error .notFound)
    match Command.respond request content (← freshGuid) with
    | .ok text =>
      IO.print text
      return 0
    | .error failure =>
      IO.eprint failure.text
      return 1
