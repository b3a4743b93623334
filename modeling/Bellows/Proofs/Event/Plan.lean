import Bellows.Event.Layout
import Bellows.Proofs.Attempts

/-! Plans: the layout of a part before its times are rounded. A plan fills the length of the part
without gaps. -/
namespace Bellows

/-- An event with its exact start. -/
structure Planned where
  start : Rat
  action : Action
  dynamic : Dynamic
  measure : Int
  note : Option Nat

namespace Layout

variable {interval division start : Rat} {measure bpm : Int} {index : Nat}
  {note : Note} {measures : List Measure}

def emitPlanned (p : Planned) : Except LayoutFault Event :=
  emit p.start p.action p.dynamic p.measure p.note

/-- The events of a note at a start; a note of no length has none. -/
def planNote (interval division : Rat) (measure : Int) (index : Nat) (start : Rat) (note : Note) :
    List Planned :=
  if note.duration * division = 0 then []
  else (steps note.kind (note.duration * division) interval).map fun step =>
    ⟨start + step.1, step.2, note.kind.dynamic, measure, some index⟩

/-- The cursor behind a note. -/
def Cursor.past (division : Rat) (cursor : Cursor) (note : Note) : Cursor :=
  if note.duration * division = 0 then cursor
  else ⟨cursor.position + note.duration * division, note.kind.dynamic⟩

def planNotes (interval division : Rat) (measure : Int) (index : Nat) (cursor : Cursor) :
    List Note → List Planned
  | [] => []
  | note :: notes =>
    planNote interval division measure index cursor.position note ++
      planNotes interval division measure (index + 1) (cursor.past division note) notes

/-- The cursor behind a measure. -/
def Cursor.pastMeasure (bpm : Int) (cursor : Cursor) (m : Measure) : Cursor :=
  m.notes.foldl (Cursor.past (divisionLength bpm m.divisions)) cursor

def planMeasures (bpm : Int) (interval : Rat) (cursor : Cursor) : List Measure → List Planned
  | [] => []
  | m :: ms =>
    planNotes interval (divisionLength bpm m.divisions) m.number 0 cursor m.notes ++
      planMeasures bpm interval (cursor.pastMeasure bpm m) ms

/-- The cursor behind a whole part. -/
def finalCursor (bpm : Int) (measures : List Measure) : Cursor :=
  measures.foldl (Cursor.pastMeasure bpm) .origin

/-- The end of a part: from there on nothing changes. -/
def plannedPin (bpm : Int) (measures : List Measure) : Planned :=
  ⟨(finalCursor bpm measures).position, .noChange, (finalCursor bpm measures).dynamic,
    (measures.getLast?.map Measure.number).getD 0, none⟩

/-- All events of a part. -/
def plan (bpm : Int) (interval : Rat) (measures : List Measure) : List Planned :=
  planMeasures bpm interval .origin measures ++ [plannedPin bpm measures]

theorem noteEvents_eq (h : note.duration * division ≠ 0) :
    noteEvents interval measure index note.kind start (note.duration * division) =
      (planNote interval division measure index start note).mapM emitPlanned := by
  rw [planNote, if_neg h, List.mapM_map, noteEvents]
  simp only [emitPlanned, Function.comp_def]

theorem pin_eq (bpm : Int) (measures : List Measure) :
    pin measures (finalCursor bpm measures) = emitPlanned (plannedPin bpm measures) := by
  rw [pin, emitPlanned, plannedPin]

/-- Laying out notes is planning them and emitting the plan. -/
theorem layNotes_eq (interval division : Rat) (measure : Int) (index : Nat) (cursor : Cursor)
    (notes : List Note) : layNotes interval division measure index cursor notes =
      ((planNotes interval division measure index cursor notes).mapM emitPlanned).map
        (·, notes.foldl (Cursor.past division) cursor) := by
  induction notes generalizing index cursor with
  | nil => rfl
  | cons note notes ih =>
    unfold layNotes planNotes
    rw [List.foldl_cons, List.mapM_append]
    by_cases h : note.duration * division = 0
    · simp only [h, if_true, planNote, Cursor.past, List.mapM_nil, ih]
      cases (planNotes interval division measure (index + 1) cursor notes).mapM emitPlanned <;> rfl
    · rw [← noteEvents_eq h]
      simp only [h, if_false, Cursor.past, ih]
      cases noteEvents interval measure index note.kind cursor.position (note.duration * division)
      · rfl
      · cases (planNotes interval division measure (index + 1) _ notes).mapM emitPlanned <;> rfl

theorem layMeasures_eq (interval : Rat) (cursor : Cursor)
    (h : ∀ m ∈ measures, bpm * m.divisions ≠ 0) : layMeasures bpm interval cursor measures =
      ((planMeasures bpm interval cursor measures).mapM emitPlanned).map
        (·, measures.foldl (Cursor.pastMeasure bpm) cursor) := by
  induction measures generalizing cursor with
  | nil => rfl
  | cons m ms ih =>
    have hm := h m List.mem_cons_self
    have hms := ih (cursor.pastMeasure bpm m) fun n hn => h n (List.mem_cons_of_mem _ hn)
    unfold layMeasures planMeasures
    rw [List.foldl_cons, List.mapM_append, if_neg hm, layNotes_eq]
    cases (planNotes interval (divisionLength bpm m.divisions) m.number 0 cursor
      m.notes).mapM emitPlanned with
    | error fault => rfl
    | ok events =>
      change (do
        let rest ← layMeasures bpm interval (cursor.pastMeasure bpm m) ms
        Except.ok (events ++ rest.1, rest.2)) = _
      rw [hms]
      cases (planMeasures bpm interval (cursor.pastMeasure bpm m) ms).mapM emitPlanned <;> rfl

/-- A last event that depends on where the others end comes behind them. -/
theorem map_bind_pin (events : Except LayoutFault (List Event))
    (pin : Cursor → Except LayoutFault Event) (last : Cursor) :
    (do
      let (es, c) ← events.map (·, last)
      let e ← pin c
      Except.ok (es ++ [e], c.position)) =
    (do
      let es ← events
      let es' ← (pin last).map ([·])
      pure (es ++ es')).map (·, last.position) := by
  cases events with
  | error fault => rfl
  | ok es =>
    change (do
      let e ← pin last
      Except.ok (es ++ [e], last.position)) = _
    cases pin last <;> rfl

/-- Laying out a part is planning it and emitting the plan. -/
theorem layOutPart_eq (interval : Rat) (h : ∀ m ∈ measures, bpm * m.divisions ≠ 0) :
    layOutPart bpm interval measures =
      ((plan bpm interval measures).mapM emitPlanned).map
        (·, (finalCursor bpm measures).position) := by
  rw [plan, List.mapM_append, mapM_singleton, ← pin_eq, layOutPart,
    layMeasures_eq interval .origin h]
  exact map_bind_pin _ (pin measures) _

end Layout
end Bellows
