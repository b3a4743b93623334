import Bellows.CommandLine.Inspecting

/-!
The task of writing one role of a schedule out as rows.
-/
namespace Bellows.CommandLine

/-- What is exported: a role of the schedule in a file. -/
structure ExportJob where
  schedule : String
  octets : List UInt8
  role : String
  output : Option String

namespace ExportJob

variable (job : ExportJob)

/-- Where the rows go: beside the schedule, under a name with the role in it, unless something else
is said. -/
def target : Except Breakdown String :=
  match job.output with
  | some output => .ok output
  | none =>
    let path := Path.ofText job.schedule
    let name := s!"{path.stem}-{job.role}.rows.json"
    if Path.isName name then .ok (path.withName name).text else .error (.badName name)

/-- The reason for which a role is not exported. -/
def refusal (message : String) : Ending :=
  .refused [s!"Cannot export role '{job.role}' — {message}"]

/-- The checked rows of the role. -/
def rowsOf (schedule : Schedule) : Except Ending (List Row) :=
  match schedule.rows job.role with
  | .error (.notFinite .nan) => .error (job.refusal NotFinite.nan.message)
  | .error fault => .error (.broken (.rows fault))
  | .ok rows =>
    match Row.fault? (rows.map Row.entries) with
    | none => .ok rows
    | some fault => .error (job.refusal fault.message)

/-- Rows as JSON text. -/
def render (rows : List Row) : String :=
  Json.render (some 2) (.list (rows.map fun row => .map row.entries))

/-- The line that says that rows are written. -/
def verdict (output : String) (ticks : Nat) : String := s!"Wrote {ticks} row(s) → '{output}'"

/-- The report on writing rows. -/
def written (output : String) (ticks : Nat) : Option WriteFault → Report
  | none => ⟨[], [], [verdict output ticks], .done⟩
  | some fault =>
    let reason := fault.message (Path.ofText output)
    ⟨[], [], [], .refused [s!"Could not write rows file — {reason}"]⟩

/-- The role must be in the schedule. -/
def knownRole (schedule : Schedule) : Except Ending Unit :=
  if schedule.instructions.contains job.role then .ok ()
  else
    let roles := Inspecting.listed schedule.roles
    .error (.refused [s!"Role '{job.role}' not in schedule (roles: {roles})"])

/-- Where the rows go, and what they are. -/
def compile (host : Host) : Except Ending (String × Schedule × List Row) := do
  let schedule ← Inspecting.readSchedule host job.octets
  job.knownRole schedule
  let output ← job.target.mapError Ending.broken
  let rows ← job.rowsOf schedule
  .ok (output, schedule, rows)

/-- What an export comes to. -/
def plan (host : Host) : Plan :=
  match job.compile host with
  | .error ending => .finish ⟨[], [], [], ending⟩
  | .ok (output, schedule, rows) =>
    .store (Path.ofText output) (render rows) ⟨[], [], [], .done⟩
      (written output schedule.time.length)

end ExportJob
end Bellows.CommandLine
