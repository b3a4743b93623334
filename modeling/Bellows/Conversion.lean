import Bellows.Command.Merge
import Bellows.Schedule.Basic

/-!
Scores converted into schedules. Every role is attempted, also after another one failed, so that
the answer is a schedule of all roles or the list of everything that is wrong.
-/
namespace Bellows

/-- What is wrong with one role. -/
inductive RoleFault
  /-- The role cannot be played. -/
  | mapping (fault : MappingFault)
  /-- The role contradicts itself. -/
  | conflict (conflict : Conflict)

def RoleFault.message : RoleFault → String
  | .mapping fault => fault.message
  | .conflict c => c.message

/-- Why a conversion gives no schedule. -/
inductive ConversionFault
  /-- The settings name no role at all. -/
  | nothingMapped
  /-- Roles that cannot be played, and roles that contradict themselves. -/
  | roles (unplayable : List MappingFault) (conflicts : List Conflict)
  /-- A part that cannot be laid out. -/
  | layout (fault : LayoutFault)
  | length (fault : LengthFault)

namespace Conversion

/-- The roles that can be played, and what keeps the others from it. -/
structure Survey where
  playable : List RoleTimelines
  unplayable : List MappingFault

/-- The timelines of all roles. A part that cannot be laid out ends the survey. -/
def survey (pace : Pace) (score : Score) : List Role → Except LayoutFault Survey
  | [] => .ok ⟨[], []⟩
  | r :: rs =>
    match r.timelines pace score with
    | .error (.layout fault) => .error fault
    | .error (.mapping fault) => do
      let rest ← survey pace score rs
      .ok { rest with unplayable := fault :: rest.unplayable }
    | .ok t => do
      let rest ← survey pace score rs
      .ok { rest with playable := t :: rest.playable }

/-- The axis that some roles share. -/
def axis (tolerance : Binary64) (roles : List RoleTimelines) : List Binary64 :=
  Axis.ofEvents tolerance (roles.flatMap fun t => t.ports.map PortTimeline.events)

/-- Each role merged onto an axis. -/
def mergeAll (curve : Curve) (ticks : List Binary64) (roles : List RoleTimelines) :
    List (String × Except Conflict (List Command)) :=
  roles.map fun t => (t.role, t.merge curve ticks)

/-- The roles that contradict themselves. -/
def conflicts (merged : List (String × Except Conflict (List Command))) : List Conflict :=
  merged.filterMap fun
    | (_, .error c) => some c
    | (_, .ok _) => none

/-- The commands of the other roles. -/
def instructions (merged : List (String × Except Conflict (List Command))) :
    Keyed String (List Command) :=
  Keyed.ofList (merged.filterMap fun
    | (role, .ok commands) => some (role, commands)
    | (_, .error _) => none)

/-- The schedule of a survey, if no role failed. -/
def ofSurvey (curve : Curve) (tolerance : Binary64) (s : Survey) :
    Except ConversionFault Schedule :=
  let ticks := axis tolerance s.playable
  let merged := mergeAll curve ticks s.playable
  if s.unplayable.isEmpty && (conflicts merged).isEmpty then
    match Schedule.assemble ticks (instructions merged) with
    | .ok schedule => .ok schedule
    | .error fault => .error (.length fault)
  else .error (.roles s.unplayable (conflicts merged))

end Conversion

/-- A score at a pace, with its roles merged onto one axis. -/
def Settings.convert (settings : Settings) (pace : Pace) (tolerance : Binary64) (score : Score) :
    Except ConversionFault Schedule :=
  if settings.roles.isEmpty then .error .nothingMapped
  else
    match Conversion.survey pace score settings.roles with
    | .error fault => .error (.layout fault)
    | .ok survey => Conversion.ofSurvey settings.curve tolerance survey

namespace ConversionFault

/-- All that is wrong with the roles: first those that cannot be played, then those that contradict
themselves. -/
def errors : ConversionFault → List RoleFault
  | .nothingMapped => [.mapping .nothingMapped]
  | .roles unplayable conflicts => unplayable.map .mapping ++ conflicts.map .conflict
  | .layout _ | .length _ => []

def message : ConversionFault → String
  | .nothingMapped => MappingFault.nothingMapped.message
  | .roles unplayable conflicts =>
    let errors := (roles unplayable conflicts).errors
    let lines := String.intercalate "\n" (errors.map fun e => s!"  - {e.message}")
    s!"{errors.length} role(s) failed:\n{lines}"
  | .layout fault => fault.message
  | .length fault => fault.message

end ConversionFault

end Bellows
