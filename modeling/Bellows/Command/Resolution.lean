import Bellows.Command.Basic
import Bellows.Role.Timeline

/-!
What a role does at one tick. Its ports share one pump, so their requests are settled on one
action: ornaments overrule plain actions, and pumping in and letting out at once is a conflict.
-/
namespace Bellows

/-- What a port asks for at a tick. A port that no part drives asks for nothing. -/
structure Request where
  port : Int
  part : Option String
  event : Event

def Request.action (r : Request) : Action := r.event.action

/-- One side of a conflict, and where in the score it comes from. -/
structure ConflictSite where
  port : Int
  part : String
  measure : Int
  note : Option Nat
  action : Action
  deriving DecidableEq, Repr

/-- Two ports of a role ask for opposite actions at a time. -/
structure Conflict where
  role : String
  time : Binary64
  sites : List ConflictSite
  deriving DecidableEq

namespace Resolution

/-- The action of the pump for a settled action. -/
def pumpAction : Action → PumpAction
  | .inflate | .trillInflate => .actuate
  | .release | .trillRelease => .release
  | .noChange => .stop

/-- Whether an action is among some requests. -/
def asks (requests : List Request) (a : Action) : Bool := requests.any fun r => r.action = a

/-- The action that requests are settled on, or the two actions that contradict each other. -/
def settle (requests : List Request) : Except (Action × Action) Action :=
  if asks requests .trillInflate then
    if asks requests .trillRelease then .error (.trillInflate, .trillRelease) else .ok .trillInflate
  else if asks requests .trillRelease then .ok .trillRelease
  else if asks requests .inflate then
    if asks requests .release then .error (.inflate, .release) else .ok .inflate
  else if asks requests .release then .ok .release
  else .ok .noChange

/-- A part without a name shows as a hyphen. -/
def partLabel (part : Option String) : String :=
  match part with
  | some name => if name.isEmpty then "-" else name
  | none => "-"

/-- Where a request comes from. -/
def site (r : Request) : ConflictSite :=
  ⟨r.port, partLabel r.part, r.event.measure, r.event.note, r.action⟩

/-- The requests for one of two actions. -/
def sites (requests : List Request) (pair : Action × Action) : List ConflictSite :=
  (requests.filter fun r => r.action = pair.1 || r.action = pair.2).map site

/-- The valve of a request is open when its own action was settled on and changes something. -/
def valve (settled : Action) (r : Request) : Valve :=
  .ofBool (settled ≠ .noChange && r.action = settled)

/-- The greatest strength among the requests that pump air in, open or not; zero without any. -/
def intensity (curve : Curve) (requests : List Request) : Nat :=
  ((requests.filter fun r => r.action.inflates).map
    fun r => (curve.intensity r.event.dynamic).val).foldl max 0

/-- The command for a settled action. -/
def command (curve : Curve) (requests : List Request) (settled : Action) : Command :=
  ⟨pumpAction settled, intensity curve requests, requests.map (valve settled)⟩

/-- The command for the requests of a role at a time. -/
def resolve (curve : Curve) (role : String) (time : Binary64) (requests : List Request) :
    Except Conflict Command :=
  match settle requests with
  | .ok settled => .ok (command curve requests settled)
  | .error pair => .error ⟨role, time, sites requests pair⟩

end Resolution

namespace ConflictSite

/-- The note of a site, counted from one. -/
def noteText (s : ConflictSite) : String :=
  match s.note with
  | some index => s!"note {index + 1}"
  | none => "end"

def text (s : ConflictSite) : String :=
  s!"port {s.port} ({s.part}, measure {s.measure}, {s.noteText}) wants {s.action.word}"

end ConflictSite

namespace Conflict

def ports (c : Conflict) : List Int := c.sites.map ConflictSite.port

/-- The measures of the sites in order, each once. -/
def measures (c : Conflict) : List Int :=
  ((c.sites.map ConflictSite.measure).mergeSort fun a b => a ≤ b).eraseReps

def message (c : Conflict) : String :=
  let details := String.intercalate "; " (c.sites.map ConflictSite.text)
  s!"Conflict in role '{c.role}' at {c.time.onePlace} ms: {details}"

end Conflict
end Bellows
