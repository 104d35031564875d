import Mc68000.CommandLine.Response

/-!
# The command line

Reads the file that the arguments name, prints the answer, and exits.
-/

namespace Mc68000.CommandLine

/-- The number of an error. Some come with their sign changed. -/
def errorNumber (code : UInt32) : Nat :=
  if code.toNat < 0x80000000 then code.toNat else Long.count - code.toNat

/-- The reason of an operating system for refusing a file. -/
def reasonText (e : IO.Error) : String :=
  match e with
  | .noFileOrDirectory _ code _
  | .permissionDenied _ code _
  | .inappropriateType _ code _
  | .invalidArgument _ code _ =>
    match ReadError.ofNumber? (errorNumber code) with
    | some known => known.message
    | none => e.toString
  | _ => e.toString

/-- The bytes of a file, or why it cannot be read. -/
def readFile (name : String) : IO (Except String (List Byte)) := do
  try
    let contents ← IO.FS.readBinFile name
    return .ok (contents.toList.map (·.toBitVec))
  catch e => return .error (reasonText e)

end Mc68000.CommandLine

open Mc68000.CommandLine

/-- Carries out the arguments. -/
def main (args : List String) : IO UInt32 := do
  let contents ←
    match inputOf args with
    | some name => readFile name
    | none => pure (.ok [])
  match respond? (fun _ => contents) args with
  | some response =>
    IO.print response.output
    IO.eprint response.errorOutput
    return UInt32.ofNat response.exitCode
  | none => return 1
