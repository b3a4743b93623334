import Mathlib.Algebra.BigOperators.Group.List.Basic
import Mathlib.Tactic.Ring
import Bellows.Proofs.Event.Pinned

/-! The length of a part decides whether it can be laid out: no event of it starts later than it
ends. -/
namespace Bellows

namespace Layout

variable {interval division : Rat} {bpm : Int} {cursor : Cursor} {notes : List Note}
  {measures : List Measure} {p q : Rat}

/-- The milliseconds that some measures take at a tempo. -/
def partLength (bpm : Int) (measures : List Measure) : Rat :=
  (measures.map fun m =>
    ((m.notes.map Note.duration).sum : Int) * divisionLength bpm m.divisions).sum

/-- Every note moves the cursor by its length. -/
theorem position_past (division : Rat) (cursor : Cursor) (note : Note) :
    (cursor.past division note).position = cursor.position + note.duration * division := by
  unfold Cursor.past
  split
  · next hzero => rw [hzero, add_zero]
  · rfl

theorem position_past_notes (division : Rat) (cursor : Cursor) (notes : List Note) :
    (notes.foldl (Cursor.past division) cursor).position =
      cursor.position + ((notes.map Note.duration).sum : Int) * division := by
  induction notes generalizing cursor with
  | nil => simp
  | cons note notes ih =>
    rw [List.foldl_cons, ih, position_past, List.map_cons, List.sum_cons, Int.cast_add]
    ring

/-- A part ends at its length. -/
theorem position_finalCursor (bpm : Int) (measures : List Measure) :
    (finalCursor bpm measures).position = partLength bpm measures := by
  have hfold : ∀ (measures : List Measure) (cursor : Cursor),
      (measures.foldl (Cursor.pastMeasure bpm) cursor).position =
        cursor.position + partLength bpm measures := by
    intro measures
    induction measures with
    | nil =>
      intro cursor
      simp [partLength]
    | cons m ms ih =>
      intro cursor
      rw [List.foldl_cons, ih, Cursor.pastMeasure, position_past_notes, partLength, partLength,
        List.map_cons, List.sum_cons, add_assoc]
  exact (hfold measures .origin).trans (zero_add _)

/-- A time that is a finite number can be emitted, and every earlier one too. -/
theorem exists_emittedTime? (hp : 0 ≤ p) (hpq : p ≤ q) (hq : (Binary64.ofRat? q).isSome = true) :
    ∃ t, emittedTime? p = some t := by
  have hlt : nearestGrains p < Binary64.ceiling := by
    refine lt_of_le_of_lt (nearestGrains_mono hp hpq) (Nat.lt_of_not_le fun hge => ?_)
    rw [ofRat?_of_ge hge] at hq
    cases hq
  obtain ⟨hn, _⟩ := roundThousandths_finite (p < 0) (Binary64.representable_nearest hlt)
  exact ⟨_, emittedTime?_eq_some.mpr ⟨hlt, hn, rfl⟩⟩

/-- Nothing in a plan starts later than the part ends. -/
theorem start_mem_of_plan (interval : Rat) (hbpm : 0 < bpm) (hmeasures : ∀ m ∈ measures, m.Regular)
    {p : Planned} (hp : p ∈ plan bpm interval measures) :
    0 ≤ p.start ∧ p.start ≤ partLength bpm measures := by
  have hfill : Fills 0 (finalCursor bpm measures).position
      (planMeasures bpm interval .origin measures) :=
    fills_planMeasures interval .origin hbpm fun m hm => (hmeasures m hm).forwards
  rw [← position_finalCursor]
  rcases List.mem_append.mp hp with hp | hpin
  · obtain ⟨hle, hlt⟩ := hfill.start_mem hp
    exact ⟨hle, hlt.le⟩
  · obtain rfl := List.mem_singleton.mp hpin
    exact ⟨hfill.le, le_refl _⟩

end Layout

namespace Pace

variable {pace : Pace} {bpm : Int} {measures : List Measure}

/-- A part whose length is a finite number can be laid out. -/
theorem exists_events_eq_ok (htempo : pace.tempo = .whole bpm) (hbpm : 0 < bpm)
    (hmeasures : ∀ m ∈ measures, m.Regular)
    (hlength : (Binary64.ofRat? (Layout.partLength bpm measures)).isSome = true) :
    ∃ events, pace.events measures = .ok events := by
  rw [events_eq htempo (mul_ne_zero_of_regular hbpm hmeasures)]
  refine exists_mapM_eq_ok fun p hp => ?_
  obtain ⟨hle, hend⟩ := Layout.start_mem_of_plan pace.interval hbpm hmeasures hp
  obtain ⟨t, ht⟩ := Layout.exists_emittedTime? hle hend hlength
  exact ⟨_, Layout.emitPlanned_eq_ok.mpr ⟨t, ht, rfl⟩⟩

end Pace
end Bellows
