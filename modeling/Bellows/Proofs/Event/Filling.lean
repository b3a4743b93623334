import Mathlib.Algebra.Order.Field.Rat
import Mathlib.Data.Rat.Floor
import Mathlib.Tactic.Linarith
import Bellows.Proofs.Event.Plan

/-! A plan fills the length of its part: the first event begins with the part, every event lasts
until the next one, and the last one until the end. -/
namespace Bellows

/-- A measure in which time runs forwards. -/
structure Measure.Regular (m : Measure) : Prop where
  divisions_pos : 0 < m.divisions
  duration_nonneg : ∀ n ∈ m.notes, 0 ≤ n.duration

theorem Measure.regular_iff {m : Measure} :
    m.Regular ↔ 0 < m.divisions ∧ ∀ n ∈ m.notes, 0 ≤ n.duration :=
  ⟨fun h => ⟨h.divisions_pos, h.duration_nonneg⟩, fun h => ⟨h.1, h.2⟩⟩

instance (m : Measure) : Decidable m.Regular := decidable_of_iff' _ Measure.regular_iff

/-- A measure in which no note has a negative length, whatever the signs of its duration and of the
divisions are. -/
def Measure.Forwards (m : Measure) : Prop := ∀ n ∈ m.notes, 0 ≤ n.duration * m.divisions

instance (m : Measure) : Decidable m.Forwards := by
  unfold Measure.Forwards
  infer_instance

theorem Measure.Regular.forwards {m : Measure} (h : m.Regular) : m.Forwards := fun n hn =>
  Int.mul_nonneg (h.duration_nonneg n hn) (Int.le_of_lt h.divisions_pos)

namespace Layout

/-- Events that follow each other without gaps from one moment to another. -/
inductive Fills : Rat → Rat → List Planned → Prop
  | nil (a : Rat) : Fills a a []
  | cons {p : Planned} {b c : Rat} {ps : List Planned} :
    p.start < b → Fills b c ps → Fills p.start c (p :: ps)

variable {interval division start finish a b c : Rat} {measure bpm : Int} {index : Nat}
  {cursor : Cursor} {note : Note} {notes : List Note} {m : Measure} {measures : List Measure}
  {p : Planned} {ps qs : List Planned}

theorem Fills.append (h : Fills a b ps) (hq : Fills b c qs) : Fills a c (ps ++ qs) := by
  induction h with
  | nil => exact hq
  | cons hlt _ ih => exact .cons hlt (ih hq)

/-- A filling begins with its first event. -/
theorem Fills.start_eq (h : Fills a b (p :: ps)) : p.start = a := by
  cases h
  rfl

theorem Fills.singleton (h : p.start < b) : Fills p.start b [p] := .cons h (.nil b)

theorem Fills.le (h : Fills a b ps) : a ≤ b := by
  induction h with
  | nil => exact le_refl _
  | cons hlt _ ih => exact hlt.le.trans ih

/-- All events of a filling start within it. -/
theorem Fills.start_mem (h : Fills a b ps) (hp : p ∈ ps) : a ≤ p.start ∧ p.start < b := by
  induction h with
  | nil => cases hp
  | cons hlt hrest ih =>
    rcases List.mem_cons.mp hp with rfl | hp
    · exact ⟨le_refl _, hlt.trans_le hrest.le⟩
    · obtain ⟨hle, hend⟩ := ih hp
      exact ⟨hlt.le.trans hle, hend⟩

/-- The events of a filling start one after another. -/
theorem Fills.pairwise (h : Fills a b ps) : ps.Pairwise fun p q => p.start < q.start := by
  induction h with
  | nil => exact List.Pairwise.nil
  | cons hlt hrest ih =>
    exact List.pairwise_cons.mpr ⟨fun q hq => hlt.trans_le (hrest.start_mem hq).1, ih⟩

/-- Equally spaced events fill the time up to a moment behind the last one. -/
theorem fills_range' {f : Nat → Planned} {step : Rat} (hf : ∀ i, (f i).start = start + i * step)
    (hstep : 0 < step) (n k : Nat) (hend : start + (k + n : Nat) * step < finish) :
    Fills (start + k * step) finish ((List.range' k (n + 1)).map f) := by
  induction n generalizing k with
  | zero =>
    rw [← hf]
    exact .singleton (by rw [hf]; simpa using hend)
  | succ n ih =>
    have hnext := ih (k + 1) (by rwa [Nat.add_right_comm])
    have hlt : (f k).start < start + (k + 1 : Nat) * step := by
      rw [hf]
      push_cast
      linarith
    rw [List.range'_succ, List.map_cons, ← hf]
    exact .cons hlt hnext

/-- An ornament has no more steps than fit, so that each of them starts within it. -/
theorem fills_ornament {f : Nat → Planned} {length : Rat}
    (hf : ∀ i, (f i).start = start + i * interval) (hlength : 0 < length) :
    Fills start (start + length) ((List.range (stepCount length interval)).map f) := by
  obtain ⟨n, hn⟩ : ∃ n, stepCount length interval = n + 1 :=
    ⟨stepCount length interval - 1, by unfold stepCount; omega⟩
  have hstart : start = start + (0 : Nat) * interval := by simp
  rw [hn, List.range_eq_range']
  rcases Nat.eq_zero_or_pos n with rfl | hpos
  · have hzero : (f 0).start = start := by rw [hf]; exact hstart.symm
    have hlt : (f 0).start < start + length := by rw [hzero]; linarith
    have hone := Fills.singleton hlt
    rw [hzero] at hone
    exact hone
  · have hfloor : ((n + 1 : Nat) : Int) ≤ (length / interval).floor := by
      unfold stepCount at hn
      omega
    have hquot : ((n + 1 : Nat) : Rat) ≤ length / interval := by
      have := Rat.le_floor_iff.mp hfloor
      exact_mod_cast this
    have hnpos : (0 : Rat) < (n + 1 : Nat) := by positivity
    have hinterval : 0 < interval := by
      by_contra hneg
      have := div_nonpos_of_nonneg_of_nonpos hlength.le (not_lt.mp hneg)
      linarith
    have hfit : ((n + 1 : Nat) : Rat) * interval ≤ length := (le_div_iff₀ hinterval).mp hquot
    rw [hstart]
    refine fills_range' hf hinterval n 0 ?_
    push_cast at hfit ⊢
    linarith

/-- A note fills its own length. -/
theorem fills_planNote (interval : Rat) (measure : Int) (index : Nat)
    (hlength : 0 ≤ note.duration * division) :
    Fills cursor.position (cursor.past division note).position
      (planNote interval division measure index cursor.position note) := by
  unfold planNote Cursor.past
  by_cases hzero : note.duration * division = 0
  · rw [if_pos hzero, if_pos hzero]
    exact .nil _
  · rw [if_neg hzero, if_neg hzero]
    have hpos : 0 < note.duration * division := lt_of_le_of_ne hlength (Ne.symm hzero)
    generalize (note.duration * division : Rat) = length at hpos
    have hone (action : Action) : Fills cursor.position (cursor.position + length)
        [⟨cursor.position + 0, action, note.kind.dynamic, measure, some index⟩] := by
      rw [add_zero]
      have hlt : cursor.position < cursor.position + length := by linarith
      exact Fills.singleton
        (p := ⟨cursor.position, action, note.kind.dynamic, measure, some index⟩) hlt
    have hornament (active passive : Action) : Fills cursor.position (cursor.position + length)
        ((ornamentSteps active passive length interval).map fun step =>
          ⟨cursor.position + step.1, step.2, note.kind.dynamic, measure, some index⟩) := by
      rw [ornamentSteps, List.map_map]
      exact fills_ornament (fun _ => rfl) hpos
    cases hkind : note.kind with
    | rest d => rw [hkind] at hone; exact hone .release
    | hold => rw [hkind] at hone; exact hone .noChange
    | actuate d => rw [hkind] at hone; exact hone .inflate
    | trill d => rw [hkind] at hornament; exact hornament .inflate .noChange
    | hardTrill d => rw [hkind] at hornament; exact hornament .trillInflate .trillRelease

theorem fills_planNotes (interval : Rat) (measure : Int) (index : Nat) (cursor : Cursor)
    (hnotes : ∀ n ∈ notes, 0 ≤ n.duration * division) :
    Fills cursor.position (notes.foldl (Cursor.past division) cursor).position
      (planNotes interval division measure index cursor notes) := by
  induction notes generalizing index cursor with
  | nil => exact .nil _
  | cons note notes ih =>
    have hfirst : Fills cursor.position (cursor.past division note).position
        (planNote interval division measure index cursor.position note) :=
      fills_planNote interval measure index (hnotes note List.mem_cons_self)
    exact hfirst.append
      (ih (index + 1) (cursor.past division note) fun n hn => hnotes n (List.mem_cons_of_mem _ hn))

/-- At a positive tempo a note is as long as its duration times the divisions says, up to a positive
factor. -/
theorem length_nonneg (hbpm : 0 < bpm) {duration divisions : Int} (h : 0 ≤ duration * divisions) :
    0 ≤ (duration : Rat) * divisionLength bpm divisions := by
  have hbpm' : (0 : Rat) < bpm := by exact_mod_cast hbpm
  have h' : (0 : Rat) ≤ duration * divisions := by exact_mod_cast h
  have hsplit : (duration : Rat) * divisionLength bpm divisions =
      60000 * (duration * divisions) / (bpm * (divisions * divisions)) := by
    unfold divisionLength
    rcases eq_or_ne (divisions : Rat) 0 with hzero | hne
    · simp [hzero]
    · push_cast
      field_simp
  rw [hsplit]
  exact div_nonneg (by linarith) (mul_nonneg hbpm'.le (mul_self_nonneg _))

/-- Measures fill the time up to the cursor behind them. -/
theorem fills_planMeasures (interval : Rat) (cursor : Cursor) (hbpm : 0 < bpm)
    (hmeasures : ∀ m ∈ measures, m.Forwards) :
    Fills cursor.position (measures.foldl (Cursor.pastMeasure bpm) cursor).position
      (planMeasures bpm interval cursor measures) := by
  induction measures generalizing cursor with
  | nil => exact .nil _
  | cons m ms ih =>
    have hm := hmeasures m List.mem_cons_self
    have hfirst : Fills cursor.position (cursor.pastMeasure bpm m).position
        (planNotes interval (divisionLength bpm m.divisions) m.number 0 cursor m.notes) :=
      fills_planNotes interval m.number 0 cursor fun n hn => length_nonneg hbpm (hm n hn)
    exact hfirst.append
      (ih (cursor.pastMeasure bpm m) fun n hn => hmeasures n (List.mem_cons_of_mem _ hn))

/-- A part is filled from its origin on; its pin may be taken to last as long as one likes. -/
theorem fills_plan (interval : Rat) (hbpm : 0 < bpm) (hmeasures : ∀ m ∈ measures, m.Forwards)
    (hfinish : (finalCursor bpm measures).position < finish) :
    Fills 0 finish (plan bpm interval measures) :=
  (fills_planMeasures interval .origin hbpm hmeasures).append
    (Fills.singleton (p := plannedPin bpm measures) hfinish)

end Layout
end Bellows
