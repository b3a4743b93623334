/-!
Commands: what the pump of a role does at a tick, how strongly, and which valves are open.
-/
namespace Bellows

inductive PumpAction
  | stop
  | actuate
  | release
  deriving DecidableEq, Repr

namespace PumpAction

def all : List PumpAction := [stop, actuate, release]

/-- The word for an action in a schedule. -/
def word : PumpAction → String
  | stop => "stop"
  | actuate => "actuate"
  | release => "release"

def ofWord? (s : String) : Option PumpAction := all.find? fun a => a.word = s

/-- The sign for an action in a packet and in a row. -/
def opcode : PumpAction → Char
  | stop => '!'
  | actuate => '+'
  | release => '^'

theorem ofWord?_word (a : PumpAction) : ofWord? a.word = some a := by cases a <;> decide

end PumpAction

inductive Valve
  | opened
  | closed
  deriving DecidableEq, Repr

namespace Valve

/-- The word for a state in a schedule. -/
def word : Valve → String
  | opened => "open"
  | closed => "closed"

def ofWord? (s : String) : Option Valve := [opened, closed].find? fun v => v.word = s

def ofBool (isOpen : Bool) : Valve := if isOpen then opened else closed

/-- An open valve is a set bit. -/
def bit : Valve → Nat
  | opened => 1
  | closed => 0

theorem ofWord?_word (v : Valve) : ofWord? v.word = some v := by cases v <;> decide

end Valve

/-- A command has a valve for each port, the first port first. -/
structure Command where
  action : PumpAction
  intensity : Int
  valves : List Valve
  deriving DecidableEq, Repr

/-- The bits of some valves, the first valve lowest. -/
def valveMask : List Valve → Nat
  | [] => 0
  | v :: vs => v.bit + 2 * valveMask vs

/-- The valves of the lowest bits of a mask. -/
def valvesOfMask (mask : Nat) : Nat → List Valve
  | 0 => []
  | n + 1 => .ofBool (mask % 2 = 1) :: valvesOfMask (mask / 2) n

namespace Command

/-- The ports with open valves, counted from one. -/
def openPorts (c : Command) : List Nat :=
  (c.valves.zipIdx 1).filterMap fun (v, port) => if v = .opened then some port else none

/-- The open ports as a mask, the first port lowest. -/
def portsByte (c : Command) : Nat := valveMask c.valves

end Command
end Bellows
