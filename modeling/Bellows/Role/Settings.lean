import Bellows.Event.Pace
import Bellows.Role.Curve

/-!
Settings of a conversion: the tempo, the role and the port of each part, the loudness curve, and
the length of the steps of an ornament.
-/
namespace Bellows

/-- A device has five ports. -/
def portCount : Nat := 5

/-- The role that a part plays and the port that it drives. -/
structure Assignment where
  role : String
  port : Int
  role_ne_empty : role ≠ ""
  port_mem : 1 ≤ port ∧ port ≤ portCount
  deriving DecidableEq

/-- Why a part has no assignment. -/
inductive AssignmentFault
  | emptyRole
  | portOutOfRange (port : Int)
  deriving DecidableEq, Repr

/-- A role with a name, and one of the five ports. -/
def Assignment.of (role : String) (port : Int) : Except AssignmentFault Assignment :=
  if hr : role ≠ "" then
    if hp : 1 ≤ port ∧ port ≤ portCount then .ok ⟨role, port, hr, hp⟩
    else .error (.portOutOfRange port)
  else .error .emptyRole

/-- The settings of a conversion. The step of an ornament keeps the form in which it was given. -/
structure Settings where
  bpm : Int
  assignments : Keyed String Assignment
  curve : Curve
  step : Value
  bpm_pos : 0 < bpm

/-- Why values do not make settings. -/
inductive SettingsFault
  | badTempo (value : Value)
  | badStep (value : Value)
  | stepNotComparable (kind : String)

namespace Settings

/-- The tempo and the step where nothing else is said. -/
def defaultBpm : Int := 120

def defaultStep : Value := .float (.ofNat 20)

/-- Settings of a tempo that is a positive whole number and a step that is not at most zero. -/
def of (bpm : Value) (assignments : Keyed String Assignment) (curve : Curve) (step : Value) :
    Except SettingsFault Settings :=
  match bpm with
  | .int n =>
    if h : 0 < n then
      match step.quantity? with
      | none => .error (.stepNotComparable step.kind)
      | some q =>
        if q.le (.whole 0) then .error (.badStep step) else .ok ⟨n, assignments, curve, step, h⟩
    else .error (.badTempo bpm)
  | v => .error (.badTempo v)

/-- The pace that settings ask for. -/
def pace (s : Settings) : Except PaceFault Pace := Pace.ofValues (.int s.bpm) s.step

end Settings

namespace AssignmentFault

def message : AssignmentFault → String
  | .emptyRole => "role name must not be empty"
  | .portOutOfRange port => (Value.int port).about s!"port must be between 1 and 5, got {port}"

end AssignmentFault

namespace SettingsFault

def message : SettingsFault → String
  | .badTempo v => v.about s!"bpm must be a positive integer, got {v.quoted}"
  | .badStep v => v.about s!"trill interval must be positive, got {v.quoted}"
  | .stepNotComparable kind => (PaceFault.notComparable kind).message

end SettingsFault
end Bellows
