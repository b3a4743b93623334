import Mathlib.Algebra.Order.Field.Rat
import Mathlib.Algebra.Ring.Rat
import Bellows.Event.Pace
import Bellows.Proofs.Keyed

/-! Finer divisions. A measure that divides the quarter note into some times as many parts, and
counts its notes in these, is laid out as before. -/
namespace Bellows

/-- The same note, counted in divisions of which `k` make one of the former. -/
def Note.subdivide (k : Int) (n : Note) : Note := { n with duration := k * n.duration }

/-- The same measure with `k` divisions for each of the former. -/
def Measure.subdivide (k : Int) (m : Measure) : Measure :=
  { m with divisions := k * m.divisions, notes := m.notes.map (Note.subdivide k) }

/-- A measure of which every division is cut into the same number of parts. -/
def Measure.Subdivided (m m' : Measure) : Prop := ∃ k : Int, 0 < k ∧ m' = m.subdivide k

/-- A part of which each measure is subdivided on its own. -/
structure Part.Subdivided (p p' : Part) : Prop where
  name : p.name = p'.name
  measures : List.Forall₂ Measure.Subdivided p.measures p'.measures

/-- A score of which each measure of each part is subdivided on its own. -/
def Score.Subdivided (score score' : Score) : Prop :=
  List.Forall₂ (Keyed.SameKey Part.Subdivided) score.entries score'.entries

theorem Measure.Subdivided.number_eq {m m' : Measure} (h : m.Subdivided m') :
    m.number = m'.number := by
  obtain ⟨_, _, rfl⟩ := h
  rfl

namespace Layout

variable {bpm divisions k : Int} {measures measures' : List Measure}

/-- A note takes as long as before: it has more divisions, each of them shorter. -/
theorem length_subdivide (bpm divisions : Int) (hk : 0 < k) (duration : Int) :
    ((k * duration : Int) : Rat) * divisionLength bpm (k * divisions) =
      duration * divisionLength bpm divisions := by
  have hk' : (k : Rat) ≠ 0 := by exact_mod_cast hk.ne'
  have hdivision : (k : Rat) * divisionLength bpm (k * divisions) =
      divisionLength bpm divisions := by
    unfold divisionLength
    rw [mul_left_comm, Int.cast_mul, ← mul_div_assoc, mul_div_mul_left _ _ hk']
  rw [Int.cast_mul, mul_right_comm, hdivision, mul_comm]

theorem layNotes_subdivide (interval : Rat) (divisions : Int) (hk : 0 < k) (measure : Int)
    (index : Nat) (cursor : Cursor) (notes : List Note) :
    layNotes interval (divisionLength bpm (k * divisions)) measure index cursor
        (notes.map (Note.subdivide k)) =
      layNotes interval (divisionLength bpm divisions) measure index cursor notes := by
  induction notes generalizing index cursor with
  | nil => rfl
  | cons note notes ih =>
    have hlength : ((note.subdivide k).duration : Rat) * divisionLength bpm (k * divisions) =
        note.duration * divisionLength bpm divisions :=
      length_subdivide bpm divisions hk note.duration
    simp only [List.map_cons, layNotes, hlength, ih]
    rfl

/-- A tempo divides a measure into no parts exactly if it does so when these are cut again. -/
theorem mul_subdivide_eq_zero_iff (bpm divisions : Int) (hk : 0 < k) :
    bpm * (k * divisions) = 0 ↔ bpm * divisions = 0 := by
  rw [Int.mul_left_comm, Int.mul_eq_zero, or_iff_right hk.ne']

theorem layMeasures_subdivided (bpm : Int) (interval : Rat) (cursor : Cursor)
    (h : List.Forall₂ Measure.Subdivided measures measures') :
    layMeasures bpm interval cursor measures' = layMeasures bpm interval cursor measures := by
  induction h generalizing cursor with
  | nil => rfl
  | cons hm _ ih =>
    obtain ⟨k, hk, rfl⟩ := hm
    simp only [layMeasures, Measure.subdivide, mul_subdivide_eq_zero_iff _ _ hk,
      layNotes_subdivide interval _ hk, ih]

theorem pin_subdivided (h : List.Forall₂ Measure.Subdivided measures measures') (cursor : Cursor) :
    pin measures' cursor = pin measures cursor := by
  have hnumber : measures.getLast?.map Measure.number = measures'.getLast?.map Measure.number :=
    map_eq_of_rel (rel_getLast? h) fun _ _ hm => hm.number_eq
  rw [pin, pin, hnumber]

theorem layOutPart_subdivided (bpm : Int) (interval : Rat)
    (h : List.Forall₂ Measure.Subdivided measures measures') :
    layOutPart bpm interval measures' = layOutPart bpm interval measures := by
  simp only [layOutPart, layMeasures_subdivided bpm interval .origin h, pin_subdivided h]

end Layout

namespace Pace

variable {pace : Pace} {bpm : Int} {measures measures' : List Measure}
  (h : List.Forall₂ Measure.Subdivided measures measures')
include h

/-- At a tempo that is a whole number a subdivided part has the same events, or none for the same
reason. -/
theorem events_subdivided (htempo : pace.tempo = .whole bpm) :
    pace.events measures' = pace.events measures := by
  simp only [events, layOut, htempo, Layout.layOutPart_subdivided bpm pace.interval h]

/-- At any tempo it has the same events, if it has any. -/
theorem toOption_events_subdivided (pace : Pace) :
    (pace.events measures').toOption = (pace.events measures).toOption := by
  cases htempo : pace.tempo with
  | whole bpm => rw [events_subdivided h htempo]
  | broken x =>
    cases h with
    | nil => rfl
    | cons _ _ =>
      simp only [events, layOut, htempo, Except.map, Except.toOption]

end Pace
end Bellows
