import Bellows.CommandLine.Run
import Bellows.Yaml.Reading

/-!
The program: it reads the files that its arguments name, carries out what they ask for, and prints
what came of it.
-/
namespace Bellows.CommandLine

/-- The surroundings of the program: parameter files are in YAML, there are no other encodings than
those described, a schedule with half of a pair is no JSON, and every text can be written and
printed. -/
def disk : Host where
  here := []
  codecs _ _ := .error .undecodable
  reader := Yaml.reader
  halved _ := .error .malformed
  refusal _ _ _ := none
  unprintable _ := none

/-- What stands at a path. -/
def lookUp (path : String) : IO Entry := do
  try
    let octets ← IO.FS.readBinFile path
    return .file octets.toList
  catch
    | .inappropriateType .. => return .folder
    | _ => return .missing

/-- Writes a text to a path, and gives the fault that kept it from being written. -/
def store (path : Path) (text : String) : IO (Option WriteFault) := do
  try
    IO.FS.writeFile path.text text
    return none
  catch
    | .noFileOrDirectory .. => return some .missing
    | .inappropriateType _ number _ =>
      return some (if number.toNat = WriteFault.notFolder.number then .notFolder else .isFolder)
    | .permissionDenied _ number _ => return some ⟨number.toNat, "Permission denied"⟩
    | fault => return some ⟨5, fault.toString⟩

/-- Carries out a plan on the disk. -/
def carryOut : Plan → IO Report
  | .finish report => return report
  | .write path text _ report => do
    let fault ← store path text
    return report fault

/-- Prints a report; a fault without one is printed as it is. -/
def print (verbose : Bool) (report : Report) : IO UInt32 := do
  IO.print report.answer
  IO.eprint (report.remarks verbose)
  match report.ending with
  | .broken fault => IO.eprintln fault.message
  | _ => pure ()
  return report.ending.status.toUInt32

/-- Runs what arguments ask for. -/
def perform (arguments : List String) : IO UInt32 := do
  let invocation := Invocation.ofArguments arguments
  let paths := (invocation.toOption.map Invocation.inputs).getD []
  let entries ← paths.mapM fun path => return (path, ← lookUp path)
  let files := fun path => (entries.lookup path).getD .missing
  match invocation >>= Invocation.plan disk files with
  | .ok plan => print ((invocation.toOption.map Invocation.isVerbose).getD false) (← carryOut plan)
  | .error fault =>
    IO.eprintln s!"Error: {fault.message}"
    return 2

end Bellows.CommandLine

def main (arguments : List String) : IO UInt32 := Bellows.CommandLine.perform arguments
