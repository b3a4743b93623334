import Bellows.Role.Settings

/-!
Roles: a role is played by up to five parts of a score, each of which drives one port. Main
definitions: the roles of some settings (`Settings.roles`), and the timelines of a role
(`Role.timelines`), which exist exactly when the role is playable.
-/
namespace Bellows

/-- A part in a role, and the port that it drives. -/
structure Member where
  part : String
  port : Int
  deriving DecidableEq, Repr

/-- A role with its members in the order of their assignment. -/
structure Role where
  name : String
  members : List Member
  deriving DecidableEq, Repr

/-- The events of the part that drives a port. -/
structure PortTimeline where
  port : Int
  part : String
  events : List Event

/-- The timelines of a role, by port. -/
structure RoleTimelines where
  role : String
  ports : List PortTimeline

/-- The part that drives a port. -/
def RoleTimelines.partFor? (t : RoleTimelines) (port : Int) : Option String :=
  (t.ports.find? fun p => p.port = port).map PortTimeline.part

/-- Why a role cannot be played. -/
inductive MappingFault
  /-- The settings assign no part to any role. -/
  | nothingMapped
  | noParts (role : String)
  | tooManyParts (role : String) (parts : List String)
  | missingParts (role : String) (parts : List String)
  | sharedPort (role : String) (port : Int) (parts : List String)
  deriving DecidableEq, Repr

/-- Why a role has no timelines. -/
inductive TimelineFault
  | mapping (fault : MappingFault)
  | layout (fault : LayoutFault)

namespace Settings

/-- A member added to its role; a new role comes last. -/
def addMember (name : String) (m : Member) : List Role → List Role
  | [] => [⟨name, [m]⟩]
  | r :: rs => if r.name = name then ⟨name, r.members ++ [m]⟩ :: rs else r :: addMember name m rs

/-- The roles of some assignments, in the order in which they are first named. -/
def rolesOf (assignments : List (String × Assignment)) : List Role :=
  assignments.foldl (fun rs a => addMember a.2.role ⟨a.1, a.2.port⟩ rs) []

def roles (s : Settings) : List Role := rolesOf s.assignments.entries

end Settings

namespace Role

variable (r : Role)

def parts : List String := r.members.map Member.part

/-- The smallest port that is driven by more than one part. -/
def sharedPort? : Option Int :=
  let ports := r.members.map Member.port
  (ports.filter fun p => 1 < ports.count p).min?

/-- The parts that drive a port. -/
def partsAt (port : Int) : List String := (r.members.filter fun m => m.port = port).map Member.part

/-- The parts that a score lacks. -/
def missingFrom (score : Score) : List String := r.parts.filter fun p => !score.contains p

/-- What keeps a role from being played: it has no parts, or more than the five ports; the score
lacks parts of it; two of its parts drive the same port. -/
def fault? (score : Score) : Option MappingFault :=
  if r.members.isEmpty then some (.noParts r.name)
  else if portCount < r.members.length then some (.tooManyParts r.name r.parts)
  else if !(r.missingFrom score).isEmpty then some (.missingParts r.name (r.missingFrom score))
  else r.sharedPort?.map fun port => .sharedPort r.name port (r.partsAt port)

/-- The members by port. -/
def byPort : List Member := r.members.mergeSort fun a b => a.port ≤ b.port

/-- The measures of a part; a part that the score lacks has none. -/
def measuresOf (score : Score) (part : String) : List Measure :=
  ((score.get? part).map Part.measures).getD []

/-- The timeline of one member. -/
def portTimeline (pace : Pace) (score : Score) (m : Member) : Except LayoutFault PortTimeline := do
  let events ← pace.events (measuresOf score m.part)
  .ok ⟨m.port, m.part, events⟩

/-- The timelines of a role that can be played, by port. -/
def timelines (pace : Pace) (score : Score) : Except TimelineFault RoleTimelines :=
  match r.fault? score with
  | some fault => .error (.mapping fault)
  | none =>
    match r.byPort.mapM (portTimeline pace score) with
    | .ok ports => .ok ⟨r.name, ports⟩
    | .error fault => .error (.layout fault)

end Role

namespace MappingFault

/-- The role that cannot be played. -/
def role? : MappingFault → Option String
  | .nothingMapped => none
  | .noParts role | .tooManyParts role _ | .missingParts role _ | .sharedPort role _ _ => some role

/-- The parts that are to blame. -/
def parts : MappingFault → List String
  | .nothingMapped | .noParts _ => []
  | .tooManyParts _ parts | .missingParts _ parts | .sharedPort _ _ parts => parts

/-- The port that is driven twice. -/
def port? : MappingFault → Option Int
  | .sharedPort _ port _ => some port
  | _ => none

def message : MappingFault → String
  | .nothingMapped => "No parts are mapped to a role"
  | .noParts role => s!"Role '{role}' has no parts assigned"
  | .tooManyParts role parts =>
    s!"Role '{role}' has too many parts ({parts.length}, at most {portCount})"
  | .missingParts role parts =>
    let joined := String.intercalate ", " parts
    s!"Role '{role}' refers to part(s) not in the score: {joined}"
  | .sharedPort role port parts =>
    let joined := String.intercalate ", " parts
    s!"Role '{role}' assigns port {port} to more than one part: {joined}"

end MappingFault
end Bellows
