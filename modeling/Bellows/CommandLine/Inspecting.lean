import Bellows.CommandLine.Report

/-!
The tasks that only look at files: listing the parts of a score, and checking a schedule.
-/
namespace Bellows.CommandLine

namespace Inspecting

/-- The line about one part. -/
def partLine (id : String) (part : Part) : String :=
  let name := if part.name.isEmpty then "(unnamed)" else part.name
  s!"{padded 8 id} {padded 24 name} {part.measures.length} measure(s)"

variable (host : Host)

/-- The parts of a score. -/
def parts (octets : List UInt8) : Report :=
  let notices := Notice.ofDocument host.codecs Score.defaultOrnament octets
  match Score.ofOctets host.codecs Score.defaultOrnament octets with
  | .ok score => ⟨[], notices, score.entries.map fun (id, part) => partLine id part, .done⟩
  | .error fault => ⟨[], notices, [], .ofScoreFile fault⟩

/-- The ending for a file without a schedule in it. -/
def invalid (message : String) : Ending := .refused [s!"Invalid schedule — {message}"]

/-- How a run ends whose document is no schedule. -/
def documentEnding : DocumentFault → Ending
  | .hugeTime => .broken (.document .hugeTime)
  | fault => invalid fault.message

/-- How a run ends whose document cannot be read for half of a pair of units in it. -/
def halvedEnding : ReadingFault → Ending
  | .malformed => invalid FormatFault.notJson.message
  | .refused _ message => invalid message
  | .unforeseen kind message => .broken (.foreign kind message)

/-- The schedule of a JSON text, or how a run ends that needs it. -/
def readText (text : String) : Except Ending Schedule :=
  match Schedule.read text with
  | .ok schedule => .ok schedule
  | .error .unpaired =>
    match host.halved text with
    | .ok v => (Document.decode v).mapError documentEnding
    | .error fault => .error (halvedEnding fault)
  | .error fault => .error (documentEnding fault)

/-- The schedule in a file, or how a run ends that needs it. -/
def readSchedule (octets : List UInt8) : Except Ending Schedule :=
  match Encoding.decodeUtf8 octets with
  | none => .error (invalid Encoding.notUtf8Message)
  | some text => readText host text

/-- The names of roles in a line. -/
def listed (roles : List String) : String := String.intercalate ", " roles

/-- The verdict on a schedule. -/
def check (octets : List UInt8) : Report :=
  match readSchedule host octets with
  | .error ending => ⟨[], [], [], ending⟩
  | .ok schedule =>
    let roles := listed schedule.roles
    let shown := if roles.isEmpty then "none" else roles
    ⟨[], [], [s!"OK: {schedule.time.length} tick(s), roles: {shown}"], .done⟩

end Inspecting
end Bellows.CommandLine
