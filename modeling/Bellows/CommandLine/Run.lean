import Bellows.CommandLine.ConvertJob
import Bellows.CommandLine.ExportJob
import Bellows.CommandLine.Manual

/-!
Runs of the program: what an invocation comes to over the files that it reads, and what it does to a
folder. Main definition: `Folder.run`, which changes at most one file, and none if it fails.
-/
namespace Bellows

namespace CommandLine

/-- The octets of a file that must be there. -/
def octetsOf (files : String → Entry) (path : String) : Except UsageFault (List UInt8) :=
  match files path with
  | .file octets => .ok octets
  | .folder => .error (.notFile path)
  | .missing => .error (.noSuchFile path)

/-- What a task comes to. -/
def Task.plan (host : Host) (files : String → Entry) : Task → Except UsageFault Plan
  | convert score config bpm step output => do
    let scoreOctets ← octetsOf files score
    let configOctets ← octetsOf files config
    .ok (ConvertJob.plan ⟨score, config, scoreOctets, configOctets, bpm, step, output⟩ host)
  | parts score => do
    let octets ← octetsOf files score
    .ok (.finish (Inspecting.parts host octets))
  | check schedule => do
    let octets ← octetsOf files schedule
    .ok (.finish (Inspecting.check host octets))
  | rows schedule role output => do
    let octets ← octetsOf files schedule
    .ok (ExportJob.plan ⟨schedule, octets, role, output⟩ host)

namespace Invocation

/-- What an invocation comes to. -/
def plan (host : Host) (files : String → Entry) : Invocation → Except UsageFault Plan
  | version => .ok (.finish ⟨[], [], [s!"flowscore, version {CommandLine.version}"], .done⟩)
  | manual verb => .ok (.finish ⟨[], [], manualPage verb, .done⟩)
  | task _ t => t.plan host files

/-- Whether all notices are shown. -/
def isVerbose : Invocation → Bool
  | task verbose _ => verbose
  | _ => false

end Invocation

/-- A run as it is seen from outside. -/
structure Outcome where
  answer : String
  remarks : String
  ending : Ending

def Report.outcome (verbose : Bool) (r : Report) : Outcome :=
  ⟨r.answer, r.remarks verbose, r.ending⟩

end CommandLine

namespace Folder

open CommandLine

/-- A plan carried out in a folder. What cannot be printed breaks it off, before the writing or
after it. -/
def carryOut (host : Host) (f : Folder) : Plan → Report × Folder
  | .finish report => (report.printed host, f)
  | .write path text before report =>
    match before.cut? host with
    | some report => (report, f)
    | none =>
      match host.write f path text with
      | .ok g => ((report none).printed host, g)
      | .error fault => ((report (some fault)).printed host, f)

/-- The program run in a folder. Arguments that cannot be understood change nothing. -/
def run (host : Host) (f : Folder) (arguments : List String) :
    Except UsageFault (Outcome × Folder) := do
  let invocation ← Invocation.ofArguments arguments
  let plan ← invocation.plan host (host.entry f)
  let (report, g) := carryOut host f plan
  .ok (report.outcome invocation.isVerbose, g)

end Folder
end Bellows
