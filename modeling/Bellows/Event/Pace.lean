import Bellows.Event.Layout
import Bellows.Value.Text

/-!
The pace of a layout: a tempo, and the length of the steps of an ornament, each checked before a
part is laid out.
-/
namespace Bellows

/-- Why two values do not make a pace. -/
inductive PaceFault
  /-- A value is of a kind that cannot be compared with a number. -/
  | notComparable (kind : String)
  | tempoNotPositive (tempo : Value)
  | stepNotPositive (step : Value)
  /-- A step is written in a way that names no fraction. -/
  | stepNoFraction (step : Value)
  /-- A step is too long to be written. -/
  | stepTooLong

/-- Quarter notes in a minute: a whole number, or one with which nothing can be laid out. -/
inductive Tempo
  | whole (bpm : Int)
  | broken (bpm : Binary64)

structure Pace where
  tempo : Tempo
  interval : Rat

/-- Whether a value is at most zero, for the kinds that can be compared with zero. -/
def Value.atMostZero (v : Value) : Except PaceFault Bool :=
  match v.quantity? with
  | some q => .ok (q.le (.whole 0))
  | none => .error (.notComparable v.kind)

/-- The fraction that a value names when it is written down: for a binary64 number that is its
shortest numeral, not its exact value. -/
def Value.fraction (v : Value) : Except PaceFault Rat :=
  match v with
  | .int n => if v.isTooLong then .error .stepTooLong else .ok n
  | .float (.finite negative n _) =>
    let magnitude := if n = 0 then 0 else (Binary64.shortest n).toRat
    .ok (if negative then -magnitude else magnitude)
  | v => .error (.stepNoFraction v)

namespace Pace

/-- A pace of a tempo and a step that are both positive. -/
def ofValues (bpm step : Value) : Except PaceFault Pace := do
  if ← bpm.atMostZero then throw (.tempoNotPositive bpm)
  if ← step.atMostZero then throw (.stepNotPositive step)
  let interval ← step.fraction
  let tempo := match bpm with
    | .float x => .broken x
    | v => match v.quantity? with
      | some (.whole n) => .whole n
      | _ => .whole 0
  .ok ⟨tempo, interval⟩

/-- The events of a part at a pace, and its exact length. A broken tempo serves only a part without
measures. -/
def layOut (pace : Pace) (measures : List Measure) : Except LayoutFault (List Event × Rat) :=
  match pace.tempo with
  | .whole bpm => Layout.layOutPart bpm pace.interval measures
  | .broken _ => match measures with
    | [] => Layout.layOutPart 1 pace.interval []
    | m :: _ =>
      .error (if (Binary64.ofInt? m.divisions).isNone then .hugeDivisions else .brokenTempo)

/-- The events of a part at a pace. -/
def events (pace : Pace) (measures : List Measure) : Except LayoutFault (List Event) :=
  (pace.layOut measures).map Prod.fst

end Pace

namespace PaceFault

def message : PaceFault → String
  | .notComparable kind => s!"'<=' not supported between instances of '{kind}' and 'int'"
  | .tempoNotPositive v => s!"bpm must be positive, got {v.name}"
  | .stepNotPositive v => s!"trill interval must be positive, got {v.name}"
  | .stepNoFraction v => s!"Invalid literal for Fraction: {Bellows.quoted v.name}"
  | .stepTooLong => Value.tooLongMessage

end PaceFault

namespace LayoutFault

def message : LayoutFault → String
  | .noDivisions => "Fraction(60000, 0)"
  | .tooLong => "integer division result too large for a float"
  | .brokenTempo => "both arguments should be Rational instances"
  | .hugeDivisions => "int too large to convert to float"

end LayoutFault
end Bellows
