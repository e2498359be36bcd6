import Marginalia.Cli.Run

/-!
# The program

Reads the arguments, the file that they name, and prints what comes of it. All decisions are made by
`Marginalia.Cli.run`.
-/

namespace Marginalia.Cli

/-- The number of a reason, which some calls to the system give as its negative. -/
def reasonNumber (code : UInt32) : Nat :=
  if code.toNat < 0x80000000 then code.toNat else UInt32.size - code.toNat

/-- What a path leads to in the file system. -/
def lookup (path : Text) : IO Entry := do
  try
    return .file (← IO.FS.readBinFile (String.ofList path)).toList
  catch
    | .noFileOrDirectory _ code reason
    | .inappropriateType _ code reason
    | .invalidArgument _ code reason
    | .permissionDenied _ code reason => return .ofReason (reasonNumber code) reason.toList
    | e => throw e

/-- Prints the outcome of a run and gives its exit status. -/
def finish : Except Fault Outcome → IO UInt32
  | .ok outcome => do
    IO.print (String.ofList outcome.output)
    IO.eprint (String.ofList outcome.errors)
    return outcome.status.toUInt32
  | .error fault => do
    IO.eprintln (String.ofList fault.message)
    return 1

end Marginalia.Cli

open Marginalia Marginalia.Cli in
/-- Points at one spot of a file. -/
def main (args : List String) : IO UInt32 := do
  let words := args.map String.toList
  let entry ← match Request.ofArguments words with
    | .ok request => lookup request.path
    | .error _ => pure .missing
  finish (run Encoding.codec? (fun _ => entry) words)
