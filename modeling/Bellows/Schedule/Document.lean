import Bellows.Json.Printer
import Bellows.Json.Reader
import Bellows.Schedule.Basic

/-!
Schedules as documents. What is written is read back as the same schedule; what is read is checked
first, number by number and command by command.
-/
namespace Bellows

/-- Why a value is no schedule, or a text no schedule document. -/
inductive FormatFault
  | notJson
  | notObject
  | timeNotNumbers
  | timeNegative
  | timeNotIncreasing
  | instructionsNotObject
  | wrongCommandCount (role : Value) (ticks : Nat)
  | commandNotObject (value : Value)
  | unknownAction (value : Value)
  | badIntensity (value : Value)
  | badPortKeys
  | badPortState (value : Value)
  | badRow (number : Nat) (row : Value)
  | startsNotIncreasing

/-- Why no schedule is read from a document. -/
inductive DocumentFault
  | format (fault : FormatFault)
  /-- A whole number of too many digits. -/
  | hugeInteger (digits : Nat)
  /-- A time beyond all finite numbers. -/
  | hugeTime
  /-- A text in the document holds half of a pair of units, for which there is no character. What
  becomes of such a document is not described here. -/
  | unpaired

namespace Document

/-- The names of the ports of a device. -/
def portKeys : List String := ["port1", "port2", "port3", "port4", "port5"]

/-- A command as a value; a port without a name is left out. -/
def encodeCommand (c : Command) : Value :=
  .map [
    (.text "action", .text c.action.word),
    (.text "pumpPwm", .int c.intensity),
    (.text "ports", .map ((portKeys.zip c.valves).map fun (key, v) => (.text key, .text v.word)))]

/-- A time axis and commands as a value. -/
def encode (time : List Value) (instructions : Keyed String (List Command)) : Value :=
  .map [
    (.text "time", .list time),
    (.text "instructions", .map (instructions.entries.map fun (role, commands) =>
      (.text role, .list (commands.map encodeCommand))))]

/-- Whether two neighbours stand in a relation. -/
def anyNeighbours {α : Type} (related : α → α → Bool) : List α → Bool
  | a :: b :: rest => related a b || anyNeighbours related (b :: rest)
  | _ => false

/-- A number; a logical value is none. -/
def number? : Value → Option Quantity
  | .int n => some (.whole n)
  | .float x => some (.real x)
  | _ => none

/-- Times are numbers that increase from zero on. -/
def decodeTime (v : Value) : Except FormatFault (List Quantity) :=
  match v with
  | .list items =>
    match items.mapM number? with
    | none => .error .timeNotNumbers
    | some times =>
      if times.any fun t => t.lt (.whole 0) then .error .timeNegative
      else if anyNeighbours (fun earlier later => later.le earlier) times then
        .error .timeNotIncreasing
      else .ok times
  | _ => .error .timeNotNumbers

/-- The action of a command. -/
def decodeAction (v : Value) : Except FormatFault PumpAction :=
  match v with
  | .text s => match PumpAction.ofWord? s with
    | some a => .ok a
    | none => .error (.unknownAction v)
  | _ => .error (.unknownAction v)

/-- The strength of a command. -/
def decodeIntensity (v : Value) : Except FormatFault Int :=
  match v with
  | .int n => if 0 ≤ n ∧ n ≤ 255 then .ok n else .error (.badIntensity v)
  | _ => .error (.badIntensity v)

/-- The state of one valve. -/
def decodeValve (v : Value) : Except FormatFault Valve :=
  match v with
  | .text s => match Valve.ofWord? s with
    | some valve => .ok valve
    | none => .error (.badPortState v)
  | _ => .error (.badPortState v)

/-- Whether the keys of a map are the names of the ports, in any order. -/
def hasPortKeys (entries : List (Value × Value)) : Bool :=
  entries.length = portKeys.length && portKeys.all fun key => (Value.field? key entries).isSome

/-- The valves of a command, by the names of their ports. -/
def decodeValves (v : Value) : Except FormatFault (List Valve) :=
  match v with
  | .map entries =>
    if hasPortKeys entries then portKeys.mapM fun key => decodeValve (Value.field key entries)
    else .error .badPortKeys
  | _ => .error .badPortKeys

/-- A command. Entries under other keys are left out. -/
def decodeCommand (v : Value) : Except FormatFault Command :=
  match v with
  | .map entries => do
    let action ← decodeAction (Value.field "action" entries)
    let intensity ← decodeIntensity (Value.field "pumpPwm" entries)
    let valves ← decodeValves (Value.field "ports" entries)
    .ok ⟨action, intensity, valves⟩
  | v => .error (.commandNotObject v)

/-- The commands of a role, as many as there are ticks. -/
def decodeRole (ticks : Nat) (role commands : Value) : Except FormatFault (String × List Command) :=
  match commands with
  | .list items =>
    if items.length = ticks then do
      let commands ← items.mapM decodeCommand
      .ok (role.name, commands)
    else .error (.wrongCommandCount role ticks)
  | _ => .error (.wrongCommandCount role ticks)

/-- The commands of all roles. -/
def decodeInstructions (ticks : Nat) (v : Value) :
    Except FormatFault (Keyed String (List Command)) :=
  match v with
  | .map entries => do
    let roles ← entries.mapM fun (role, commands) => decodeRole ticks role commands
    .ok (Keyed.ofList roles)
  | _ => .error .instructionsNotObject

/-- A time axis and commands that match it. Entries under other keys are left out. -/
def decodeParts (v : Value) : Except FormatFault (List Quantity × Keyed String (List Command)) :=
  match v with
  | .map entries => do
    let time ← decodeTime (Value.field "time" entries)
    let instructions ← decodeInstructions time.length (Value.field "instructions" entries)
    .ok (time, instructions)
  | _ => .error .notObject

/-- A schedule. Its times become binary64 numbers after they were checked. -/
def decode (v : Value) : Except DocumentFault Schedule :=
  match decodeParts v with
  | .error fault => .error (.format fault)
  | .ok (time, instructions) =>
    match time.mapM Quantity.toBinary64? with
    | some time => .ok ⟨time, instructions⟩
    | none => .error .hugeTime

end Document

namespace Schedule

/-- A schedule as a value. -/
def encode (s : Schedule) : Value := Document.encode (s.time.map .float) s.instructions

/-- A schedule as JSON text. -/
def render (indent : Option Int) (s : Schedule) : String := Json.render indent s.encode

/-- The schedule of a JSON text. -/
def read (text : String) : Except DocumentFault Schedule :=
  match Json.read text with
  | .ok v => Document.decode v
  | .error .malformed => .error (.format .notJson)
  | .error (.hugeInteger digits) => .error (.hugeInteger digits)
  | .error .unpaired => .error .unpaired

end Schedule

namespace FormatFault

def message : FormatFault → String
  | .notJson => "schedule is not valid JSON"
  | .notObject => "schedule must be an object"
  | .timeNotNumbers => "time must be an array of numbers"
  | .timeNegative => "time values must not be negative"
  | .timeNotIncreasing => "time values must be strictly increasing"
  | .instructionsNotObject => "instructions must be an object keyed by role"
  | .wrongCommandCount role ticks => s!"role '{role.name}' must have exactly {ticks} command(s)"
  | .commandNotObject v => s!"command must be an object, got {v.quoted}"
  | .unknownAction v => s!"unknown action {v.quoted}"
  | .badIntensity v => s!"pumpPwm must be an integer 0-255, got {v.quoted}"
  | .badPortKeys =>
    let keys := String.intercalate ", " Document.portKeys
    s!"ports must have exactly the keys {keys}"
  | .badPortState v => s!"invalid port state: {v.quoted} is not a valid PortState"
  | .badRow number row => s!"invalid row {number}: {row.quoted}"
  | .startsNotIncreasing => "start times must be strictly increasing"

end FormatFault

/-- The message for a whole number of too many digits. -/
def hugeIntegerMessage (digits : Nat) : String :=
  s!"Exceeds the limit ({digitLimit} digits) for integer string conversion: "
    ++ s!"value has {digits} digits; use sys.set_int_max_str_digits() to increase the limit"

def DocumentFault.message : DocumentFault → String
  | .format fault => fault.message
  | .hugeInteger digits => hugeIntegerMessage digits
  | .hugeTime => "int too large to convert to float"
  | .unpaired => "half of a surrogate pair"

end Bellows
