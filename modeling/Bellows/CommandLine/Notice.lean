import Bellows.Conversion
import Bellows.Score.Reading

/-!
Notices: what a run tells about its progress besides its answer. Warnings are always shown, the
others only on demand. Notices end where the run itself ends.
-/
namespace Bellows.CommandLine

/-- A step of a run, as it is told. -/
inductive Notice
  | partRead (part name : String) (measures : Nat)
  | partLaidOut (events : Nat) (length : Rat)
  | roleReady (role : String) (ports : Nat)
  | roleUnplayable (fault : MappingFault)
  | axisReady (ticks : Nat)
  | roleMerged (role : String) (ticks : Nat)
  | roleConflict (conflict : Conflict)
  | converted (roles ticks : Nat)

/-- How much a notice matters. -/
inductive Weight
  | debug | info | warning
  deriving DecidableEq, Repr

def Weight.label : Weight → String
  | debug => "DEBUG"
  | info => "INFO"
  | warning => "WARNING"

namespace Notice

def weight : Notice → Weight
  | roleUnplayable _ | roleConflict _ => .warning
  | converted .. => .info
  | _ => .debug

/-- Whether a notice is shown. -/
def isShown (verbose : Bool) (n : Notice) : Bool := verbose || n.weight = .warning

/-- The stage of a conversion that a notice comes from. -/
def origin : Notice → String
  | partRead .. => "flowscore.score_parser"
  | partLaidOut .. => "flowscore.timeline_builder"
  | roleReady .. | roleUnplayable _ => "flowscore.role_aggregator"
  | axisReady _ | converted .. => "flowscore.schedule_assembler"
  | roleMerged .. => "flowscore.timeline_merger"
  | roleConflict _ => "flowscore.conflict_resolver"

def message : Notice → String
  | partRead part name measures => s!"Parsed part {part} ({name}): {measures} measure(s)"
  | partLaidOut events length =>
    let total := (Binary64.ofRat? length).getD .nan
    s!"Built {events} event(s) over {total.onePlace} ms"
  | roleReady role ports => s!"Role {role}: {ports} port timeline(s)"
  | roleUnplayable fault => fault.message
  | axisReady ticks => s!"Common timeline: {ticks} tick(s)"
  | roleMerged role ticks => s!"Role {role} resolved over {ticks} tick(s)"
  | roleConflict conflict => conflict.message
  | converted roles ticks => s!"Converted {roles} role(s) over {ticks} tick(s)"

/-- A notice as a line of a log. -/
def line (n : Notice) : String := s!"{n.weight.label}: {n.origin}: {n.message}"

/-- The parts of a document, up to the first that cannot be read. -/
def ofParts : List (String × Except ScoreFault Part) → List Notice
  | (part, .ok p) :: rest => .partRead part p.name p.measures.length :: ofParts rest
  | _ => []

/-- The notices of reading a document. -/
def ofDocument (codecs : Encoding.Codecs) (ornament : Dynamic) (octets : List UInt8) :
    List Notice :=
  match Score.textOf codecs octets with
  | .ok text =>
    match Score.elementOf text >>= MusicXml.readParts ornament with
    | .ok parts => ofParts parts
    | .error _ => []
  | .error _ => []

variable (pace : Pace) (score : Score)

/-- The parts of a role, up to the first that cannot be laid out. -/
def ofMembers : List Member → List Notice
  | [] => []
  | m :: ms =>
    match pace.layOut (Role.measuresOf score m.part) with
    | .ok (events, length) => .partLaidOut events.length length :: ofMembers ms
    | .error _ => []

/-- The roles of a conversion, up to the first part that cannot be laid out. -/
def ofRoles : List Role → List Notice
  | [] => []
  | r :: rs =>
    match r.timelines pace score with
    | .error (.mapping fault) => .roleUnplayable fault :: ofRoles rs
    | .error (.layout _) => ofMembers pace score r.byPort
    | .ok t => ofMembers pace score r.byPort ++ .roleReady r.name t.ports.length :: ofRoles rs

/-- The outcome of each role on the common axis. -/
def ofMerged (merged : List (String × Except Conflict (List Command))) : List Notice :=
  merged.map fun
    | (role, .ok commands) => .roleMerged role commands.length
    | (_, .error conflict) => .roleConflict conflict

/-- The notices of merging the roles that can be played. -/
def ofSurvey (curve : Curve) (tolerance : Binary64) (survey : Conversion.Survey) : List Notice :=
  let ticks := Conversion.axis tolerance survey.playable
  let merged := ofMerged (Conversion.mergeAll curve ticks survey.playable)
  let final := match Conversion.ofSurvey curve tolerance survey with
    | .ok schedule => [.converted schedule.instructions.size schedule.time.length]
    | .error _ => []
  .axisReady ticks.length :: (merged ++ final)

/-- The notices of a conversion. -/
def ofConversion (settings : Settings) (tolerance : Binary64) : List Notice :=
  if settings.roles.isEmpty then []
  else
    ofRoles pace score settings.roles ++
      match Conversion.survey pace score settings.roles with
      | .ok survey => ofSurvey settings.curve tolerance survey
      | .error _ => []

end Notice
end Bellows.CommandLine
