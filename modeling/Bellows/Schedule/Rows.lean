import Bellows.Schedule.Document

/-!
Schedules as rows: for one role, each tick rounded to whole milliseconds with the command in the
form of a device's own table. Rows are checked before they are handed on.
-/
namespace Bellows

/-- One line of the table of a device. -/
structure Row where
  start : Int
  ports : Nat
  opcode : Char
  intensity : Int
  deriving DecidableEq, Repr

/-- Why a role has no rows. -/
inductive RowsFault
  | unknownRole (role : String)
  | notFinite (fault : NotFinite)
  deriving DecidableEq, Repr

namespace Row

/-- The entries of a row under their names. -/
def entries (r : Row) : List (Value × Value) := [
  (.text "startTime", .int r.start),
  (.text "portByte", .int r.ports),
  (.text "action", .text (String.singleton r.opcode)),
  (.text "pwmVal", .int r.intensity)]

/-- Half a millisecond. -/
def half : Binary64 := .ofRatio false 1 2

/-- The row of a command; its time is rounded to whole milliseconds, a half upwards. -/
def ofCommand (time : Binary64) (c : Command) : Except NotFinite Row := do
  let start ← (time.add half).floor
  .ok ⟨start, c.portsByte, c.action.opcode, c.intensity⟩

/-- The whole number of an entry. -/
def wholeField? (name : String) (entries : List (Value × Value)) : Option Int :=
  match Value.field name entries with
  | .int n => some n
  | _ => none

/-- Whether an entry holds a whole number from zero up to a bound. -/
def hasBounded (name : String) (bound : Int) (entries : List (Value × Value)) : Bool :=
  (wholeField? name entries).any fun n => 0 ≤ n && n ≤ bound

/-- Whether an entry holds something. -/
def hasSome (name : String) (entries : List (Value × Value)) : Bool :=
  match Value.field name entries with
  | .null => false
  | _ => true

/-- A start that is not negative, a strength of at most 255, a mask of the five ports, and an
action. -/
def isValid (entries : List (Value × Value)) : Bool :=
  (wholeField? "startTime" entries).any (0 ≤ ·) && hasBounded "pwmVal" 255 entries
    && hasBounded "portByte" 0x1f entries && hasSome "action" entries

/-- The first row that is not valid, with its number, counted from `number` on. -/
def firstInvalid? (number : Nat) : List (List (Value × Value)) → Option FormatFault
  | [] => none
  | row :: rows =>
    if isValid row then firstInvalid? (number + 1) rows else some (.badRow number (.map row))

/-- What is wrong with rows: one of them, or the order of their starts. -/
def fault? (rows : List (List (Value × Value))) : Option FormatFault :=
  match firstInvalid? 1 rows with
  | some fault => some fault
  | none =>
    if Document.anyNeighbours (fun earlier later => later ≤ earlier)
        (rows.filterMap (wholeField? "startTime")) then some .startsNotIncreasing
    else none

end Row

/-- The rows of a role. -/
def Schedule.rows (s : Schedule) (role : String) : Except RowsFault (List Row) :=
  match s.instructions.get? role with
  | none => .error (.unknownRole role)
  | some commands =>
    match (s.time.zip commands).mapM fun (time, c) => Row.ofCommand time c with
    | .ok rows => .ok rows
    | .error fault => .error (.notFinite fault)

def NotFinite.message : NotFinite → String
  | .nan => "cannot convert float NaN to integer"
  | .infinite => "cannot convert float infinity to integer"

def RowsFault.message : RowsFault → String
  | .unknownRole role => quoted role
  | .notFinite fault => fault.message

end Bellows
