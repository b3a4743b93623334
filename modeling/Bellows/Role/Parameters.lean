import Bellows.Role.Settings

/-!
Settings read from a parameter document: a map with the tempo, the roles with the ports of their
parts, the loudness curve, and the step of an ornament. Everything but the tempo and the step is
only in the document; these two may be given beside it.
-/
namespace Bellows

/-- Why a parameter document gives no settings. -/
inductive ParameterFault
  | dynamicsNotMap
  | rolesNotMap
  | partsNotMap (role : Value)
  | partTwice (part first : String) (second : Value)
  | portNotWhole (part : String) (role : Value)
  /-- A role or part under a whole number that is too long to be written. -/
  | nameTooLong
  | assignment (fault : AssignmentFault)
  | curve (fault : CurveFault)
  | settings (fault : SettingsFault)

namespace Parameters

/-- The entry of a part in a role. No part may be listed twice, in whatever roles. -/
def addPart (role : Value) (assigned : Keyed String Assignment) (part port : Value) :
    Except ParameterFault (Keyed String Assignment) :=
  if part.isTooLong then .error .nameTooLong
  else
    match assigned.get? part.name, port with
    | some first, _ => .error (.partTwice part.name first.role role)
    | none, .int n =>
      if role.isTooLong then .error .nameTooLong
      else
        match Assignment.of role.name n with
        | .ok a => .ok (assigned.put part.name a)
        | .error fault => .error (.assignment fault)
    | none, _ => .error (.portNotWhole part.name role)

/-- The entries of the parts of a role. -/
def addParts (role : Value) (assigned : Keyed String Assignment) :
    List (Value × Value) → Except ParameterFault (Keyed String Assignment)
  | [] => .ok assigned
  | (part, port) :: rest => do
    let assigned ← addPart role assigned part port
    addParts role assigned rest

/-- The entries of all roles. -/
def addRoles (assigned : Keyed String Assignment) :
    List (Value × Value) → Except ParameterFault (Keyed String Assignment)
  | [] => .ok assigned
  | (role, .map parts) :: rest => do
    let assigned ← addParts role assigned parts
    addRoles assigned rest
  | (role, _) :: _ => .error (.partsNotMap role)

/-- The entries of a section; an empty section has none. -/
def subEntries? (name : String) (entries : List (Value × Value)) : Option (List (Value × Value)) :=
  let v := Value.field name entries
  if v.isEmpty then some []
  else match v with
    | .map inner => some inner
    | _ => none

/-- The assignments of a document. -/
def assignments (entries : List (Value × Value)) :
    Except ParameterFault (Keyed String Assignment) :=
  match subEntries? "roles" entries with
  | some roles => addRoles .empty roles
  | none => .error .rolesNotMap

end Parameters

open Parameters in
/-- The settings of a document; a tempo and a step given beside it go first. -/
def Settings.ofDocument (entries : List (Value × Value)) (bpm step : Option Value) :
    Except ParameterFault Settings :=
  match subEntries? "dynamics" entries with
  | none => .error .dynamicsNotMap
  | some dynamics => do
    let assigned ← Parameters.assignments entries
    match Curve.ofMap dynamics with
    | .error fault => .error (.curve fault)
    | .ok curve =>
      let bpm := bpm.getD ((Value.field? "bpm" entries).getD (.int defaultBpm))
      let step := step.getD ((Value.field? "trill_interval_ms" entries).getD defaultStep)
      match Settings.of bpm assigned curve step with
      | .error fault => .error (.settings fault)
      | .ok settings => .ok settings

def ParameterFault.message : ParameterFault → String
  | .dynamicsNotMap => "'dynamics' must map levels (ppp..fff) to intensities"
  | .rolesNotMap => "'roles' must map role names to \x7bpart id: port\x7d"
  | .partsNotMap role => role.about s!"role '{role.name}' must map part ids to port numbers"
  | .partTwice part first second =>
    second.about s!"part '{part}' is assigned to both '{first}' and '{second.name}'"
  | .portNotWhole part role =>
    role.about s!"port for part '{part}' in role '{role.name}' must be an integer"
  | .nameTooLong => Value.tooLongMessage
  | .assignment fault => fault.message
  | .curve fault => fault.message
  | .settings fault => fault.message

end Bellows
