import Bellows.Event.Basic

/-!
A part laid out in time. Notes follow each other without gaps; their lengths are added up as exact
fractions and only the start of each event is rounded, so that long parts do not drift.
-/
namespace Bellows

/-- Why a part has no layout. -/
inductive LayoutFault
  /-- A measure divides the quarter note into no parts. -/
  | noDivisions
  /-- An event starts too late for its time to be a finite number. -/
  | tooLong
  /-- The tempo is no whole number of quarter notes. -/
  | brokenTempo
  /-- The tempo is no whole number, and the divisions are too many to be multiplied by it. -/
  | hugeDivisions
  deriving DecidableEq, Repr

namespace Layout

/-- The milliseconds of one division at a tempo of `bpm` quarter notes in a minute. -/
def divisionLength (bpm divisions : Int) : Rat := 60000 / ((bpm * divisions : Int) : Rat)

/-- How many steps an ornament of a length has: those that fit, and at least one. -/
def stepCount (length interval : Rat) : Nat := max 1 (length / interval).floor.toNat

/-- The steps of an ornament as offsets from its start, active and passive in turn. -/
def ornamentSteps (active passive : Action) (length interval : Rat) : List (Rat × Action) :=
  (List.range (stepCount length interval)).map fun (i : Nat) =>
    ((i : Rat) * interval, if i % 2 = 0 then active else passive)

/-- What a note of a length asks for, as offsets from its start. -/
def steps (kind : NoteKind) (length interval : Rat) : List (Rat × Action) :=
  match kind with
  | .rest _ => [(0, .release)]
  | .hold => [(0, .noChange)]
  | .actuate _ => [(0, .inflate)]
  | .trill _ => ornamentSteps .inflate .noChange length interval
  | .hardTrill _ => ornamentSteps .trillInflate .trillRelease length interval

/-- The time of an event: the nearest number to its exact start, rounded to thousandths. -/
def emittedTime? (start : Rat) : Option Binary64 :=
  (Binary64.ofRat? start).map Binary64.roundThousandths

/-- An event at an exact start. -/
def emit (start : Rat) (action : Action) (dynamic : Dynamic) (measure : Int) (note : Option Nat) :
    Except LayoutFault Event :=
  (emittedTime? start).elim (.error .tooLong) fun time => .ok ⟨time, action, dynamic, measure, note⟩

/-- How far a part is laid out, and the loudness of the last note that took time. -/
structure Cursor where
  position : Rat
  dynamic : Dynamic

/-- The events of one note that takes time. -/
def noteEvents (interval : Rat) (measure : Int) (index : Nat) (kind : NoteKind)
    (start length : Rat) : Except LayoutFault (List Event) :=
  (steps kind length interval).mapM fun (offset, action) =>
    emit (start + offset) action kind.dynamic measure (some index)

/-- The events of the notes of a measure from the note `index` on. Notes of no length are left
out: they would start together with the next note. -/
def layNotes (interval division : Rat) (measure : Int) (index : Nat) (cursor : Cursor) :
    List Note → Except LayoutFault (List Event × Cursor)
  | [] => .ok ([], cursor)
  | note :: notes =>
    let length := note.duration * division
    if length = 0 then layNotes interval division measure (index + 1) cursor notes
    else do
      let events ← noteEvents interval measure index note.kind cursor.position length
      let (more, last) ← layNotes interval division measure (index + 1)
        ⟨cursor.position + length, note.kind.dynamic⟩ notes
      .ok (events ++ more, last)

/-- The events of measures from a cursor on. -/
def layMeasures (bpm : Int) (interval : Rat) (cursor : Cursor) :
    List Measure → Except LayoutFault (List Event × Cursor)
  | [] => .ok ([], cursor)
  | m :: ms =>
    if bpm * m.divisions = 0 then .error .noDivisions
    else do
      let (events, next) ←
        layNotes interval (divisionLength bpm m.divisions) m.number 0 cursor m.notes
      let (more, last) ← layMeasures bpm interval next ms
      .ok (events ++ more, last)

/-- The event that ends a part: from its end on nothing changes. -/
def pin (measures : List Measure) (cursor : Cursor) : Except LayoutFault Event :=
  emit cursor.position .noChange cursor.dynamic ((measures.getLast?.map Measure.number).getD 0) none

/-- The start of every part. -/
def Cursor.origin : Cursor := ⟨0, .ppp⟩

/-- The events of a part and its exact length. -/
def layOutPart (bpm : Int) (interval : Rat) (measures : List Measure) :
    Except LayoutFault (List Event × Rat) := do
  let (events, last) ← layMeasures bpm interval .origin measures
  let final ← pin measures last
  .ok (events ++ [final], last.position)

end Layout
end Bellows
