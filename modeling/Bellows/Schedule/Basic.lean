import Bellows.Command.Basic
import Bellows.Binary64.Basic
import Bellows.Keyed

/-!
Schedules: a time axis, and for each role one command for each of its ticks.
-/
namespace Bellows

structure Schedule where
  time : List Binary64
  instructions : Keyed String (List Command)
  deriving DecidableEq

/-- A role whose commands do not match the axis. -/
structure LengthFault where
  role : String
  commands : Nat
  ticks : Nat
  deriving DecidableEq, Repr

namespace Schedule

/-- The first role whose commands are not as many as the ticks. -/
def lengthFault? (ticks : Nat) (instructions : Keyed String (List Command)) : Option LengthFault :=
  (instructions.entries.find? fun e => e.2.length ≠ ticks).map fun e => ⟨e.1, e.2.length, ticks⟩

/-- A schedule in which each role has a command for each tick. -/
def assemble (time : List Binary64) (instructions : Keyed String (List Command)) :
    Except LengthFault Schedule :=
  match lengthFault? time.length instructions with
  | some fault => .error fault
  | none => .ok ⟨time, instructions⟩

/-- The names of the roles in order. -/
def roles (s : Schedule) : List String := s.instructions.keys

end Schedule

def LengthFault.message (f : LengthFault) : String :=
  s!"Role '{f.role}' has {f.commands} command(s) for {f.ticks} tick(s)"

end Bellows
