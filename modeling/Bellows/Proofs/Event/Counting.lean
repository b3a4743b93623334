import Bellows.Proofs.Event.Pinned
import Bellows.Proofs.Keyed

/-! Counting through a part. Its events are decided by its notes and the divisions that each of them
is counted in; where the barlines are is only reported. -/
namespace Bellows

/-- The notes of a measure, each with the divisions that it is counted in. -/
def Measure.counted (m : Measure) : List (Int × Note) := m.notes.map (m.divisions, ·)

/-- The same notes, counted alike, in other measures. -/
structure Measure.SameNotes (measures measures' : List Measure) : Prop where
  counted : measures.flatMap Measure.counted = measures'.flatMap Measure.counted
  isEmpty : measures.isEmpty = measures'.isEmpty

theorem Measure.SameNotes.cons {m m' : Measure} {measures measures' : List Measure}
    (h : SameNotes measures measures') (hm : m.counted = m'.counted) :
    SameNotes (m :: measures) (m' :: measures') :=
  ⟨by rw [List.flatMap_cons, List.flatMap_cons, hm, h.counted], rfl⟩

structure Part.Rebarred (p p' : Part) : Prop where
  name : p.name = p'.name
  measures : Measure.SameNotes p.measures p'.measures

/-- Scores with the same parts, in which the same notes stand in other measures. -/
def Score.Rebarred (score score' : Score) : Prop :=
  List.Forall₂ (Keyed.SameKey Part.Rebarred) score.entries score'.entries

/-- The same event of a note that stands elsewhere. -/
structure Event.Rebarred (e e' : Event) : Prop where
  start : e.start = e'.start
  action : e.action = e'.action
  dynamic : e.dynamic = e'.dynamic

/-- What is planned, wherever it comes from. -/
def Planned.play (p : Planned) : Rat × Action × Dynamic := (p.start, p.action, p.dynamic)

namespace Layout

variable {bpm : Int} {interval : Rat} {measures measures' : List Measure}

/-- The cursor behind a note that is counted in some divisions. -/
def Cursor.pastCounted (bpm : Int) (cursor : Cursor) (n : Int × Note) : Cursor :=
  cursor.past (divisionLength bpm n.1) n.2

/-- What is planned for some notes, each counted in its divisions. -/
def playCounted (bpm : Int) (interval : Rat) (cursor : Cursor) :
    List (Int × Note) → List (Rat × Action × Dynamic)
  | [] => []
  | n :: ns =>
    (planNote interval (divisionLength bpm n.1) 0 0 cursor.position n.2).map Planned.play ++
      playCounted bpm interval (cursor.pastCounted bpm n) ns

/-- The place of a note does not change what is planned for it. -/
theorem map_play_planNote (interval division : Rat) (measure : Int) (index : Nat) (start : Rat)
    (note : Note) : (planNote interval division measure index start note).map Planned.play =
      (planNote interval division 0 0 start note).map Planned.play := by
  unfold planNote
  split
  · rfl
  · rw [List.map_map, List.map_map]
    rfl

theorem map_play_planNotes (interval : Rat) (divisions measure : Int) (index : Nat)
    (cursor : Cursor) (notes : List Note) :
    (planNotes interval (divisionLength bpm divisions) measure index cursor notes).map
        Planned.play =
      playCounted bpm interval cursor (notes.map (divisions, ·)) := by
  induction notes generalizing index cursor with
  | nil => rfl
  | cons note notes ih =>
    rw [planNotes, List.map_append, ih, map_play_planNote, List.map_cons, playCounted]
    rfl

theorem playCounted_append (interval : Rat) (cursor : Cursor) (ns ns' : List (Int × Note)) :
    playCounted bpm interval cursor (ns ++ ns') = playCounted bpm interval cursor ns ++
      playCounted bpm interval (ns.foldl (Cursor.pastCounted bpm) cursor) ns' := by
  induction ns generalizing cursor with
  | nil => rfl
  | cons n ns ih =>
    rw [List.cons_append, playCounted, ih, playCounted, List.foldl_cons, List.append_assoc]

/-- A measure is passed note by note. -/
theorem pastMeasure_eq (cursor : Cursor) (m : Measure) :
    cursor.pastMeasure bpm m = m.counted.foldl (Cursor.pastCounted bpm) cursor := by
  rw [Measure.counted, List.foldl_map]
  rfl

theorem map_play_planMeasures (interval : Rat) (cursor : Cursor) (measures : List Measure) :
    (planMeasures bpm interval cursor measures).map Planned.play =
      playCounted bpm interval cursor (measures.flatMap Measure.counted) := by
  induction measures generalizing cursor with
  | nil => rfl
  | cons m ms ih =>
    rw [planMeasures, List.map_append, map_play_planNotes, ih, List.flatMap_cons,
      playCounted_append, pastMeasure_eq]
    rfl

theorem finalCursor_eq (bpm : Int) (measures : List Measure) : finalCursor bpm measures =
    (measures.flatMap Measure.counted).foldl (Cursor.pastCounted bpm) .origin := by
  rw [finalCursor, List.foldl_flatMap]
  simp only [← pastMeasure_eq]

/-- The same notes in other measures have the same plan. -/
theorem map_play_plan_eq (bpm : Int) (interval : Rat)
    (h : measures.flatMap Measure.counted = measures'.flatMap Measure.counted) :
    (plan bpm interval measures).map Planned.play =
      (plan bpm interval measures').map Planned.play := by
  have hfinal : finalCursor bpm measures = finalCursor bpm measures' := by
    rw [finalCursor_eq, finalCursor_eq, h]
  have hpin : (plannedPin bpm measures).play = (plannedPin bpm measures').play := by
    rw [plannedPin, plannedPin, hfinal]
    rfl
  rw [plan, plan, List.map_append, List.map_append, map_play_planMeasures, map_play_planMeasures,
    h, List.map_singleton, List.map_singleton, hpin]

theorem emitPlanned_rebarred {p p' : Planned} (h : p.play = p'.play) :
    EndAlike Event.Rebarred (emitPlanned p) (emitPlanned p') := by
  obtain ⟨start, action, dynamic, measure, note⟩ := p
  obtain ⟨start', action', dynamic', measure', note'⟩ := p'
  cases h
  unfold emitPlanned emit
  cases emittedTime? start with
  | none => exact .error _
  | some time => exact .ok ⟨rfl, rfl, rfl⟩

end Layout

/-- The same notes in other measures have the same events. -/
theorem Pace.events_rebarred {pace : Pace} {bpm : Int} {measures measures' : List Measure}
    (htempo : pace.tempo = .whole bpm) (hmeasures : ∀ m ∈ measures, bpm * m.divisions ≠ 0)
    (hmeasures' : ∀ m ∈ measures', bpm * m.divisions ≠ 0)
    (h : measures.flatMap Measure.counted = measures'.flatMap Measure.counted) :
    EndAlike (List.Forall₂ Event.Rebarred) (pace.events measures) (pace.events measures') := by
  have hplan := Layout.map_play_plan_eq bpm pace.interval h
  rw [← List.forall₂_eq_eq_eq, List.forall₂_map_left_iff, List.forall₂_map_right_iff] at hplan
  rw [events_eq htempo hmeasures, events_eq htempo hmeasures']
  exact .mapM (hplan.imp fun _ _ hp => Layout.emitPlanned_rebarred hp)

end Bellows
