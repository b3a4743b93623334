import Bellows.Event.Pace
import Bellows.Proofs.Axis.SampleAndHold
import Bellows.Proofs.Event.Emission
import Bellows.Proofs.Event.Filling

/-! The events of a part: they begin at zero, stay in order, and end with a pin that asks for
nothing. -/
namespace Bellows

/-- What an event list of a part looks like from outside. -/
structure Event.Pinned (events : List Event) : Prop where
  inOrder : Axis.InOrder events
  unsigned : ∀ e ∈ events, e.start.Unsigned
  head : ∃ e, events.head? = some e ∧ e.start = .zero
  last : ∃ e, events.getLast? = some e ∧ e.action = .noChange

namespace Layout

variable {interval : Rat} {bpm : Int} {measures : List Measure} {p : Planned} {e : Event}
  {events : List Event}

/-- Only the start of an event is changed when it is emitted. -/
theorem emitPlanned_eq_ok : emitPlanned p = .ok e ↔
    ∃ t, emittedTime? p.start = some t ∧ e = ⟨t, p.action, p.dynamic, p.measure, p.note⟩ := by
  rw [emitPlanned, emit]
  cases emittedTime? p.start with
  | none => simp
  | some t => simp [eq_comm]

theorem start_of_emitPlanned (h : emitPlanned p = .ok e) :
    emittedTime? p.start = some e.start := by
  obtain ⟨t, ht, rfl⟩ := emitPlanned_eq_ok.mp h
  exact ht

/-- An event is not emitted only where it starts too late. -/
theorem eq_tooLong_of_emitPlanned {fault : LayoutFault} (h : emitPlanned p = .error fault) :
    fault = .tooLong := by
  rw [emitPlanned, emit] at h
  cases htime : emittedTime? p.start with
  | none =>
    rw [htime] at h
    cases h
    rfl
  | some t =>
    rw [htime] at h
    cases h

section

variable {finish : Rat} {ps : List Planned} (hfill : Fills 0 finish ps)
  (hall : List.Forall₂ (fun p e => emitPlanned p = .ok e) ps events)
include hfill hall

/-- Emitting does not disturb the order. -/
theorem inOrder_of_fills : Axis.InOrder events := by
  refine pairwise_of_forall₂ hall hfill.pairwise fun p q e f hp he hf hlt => ?_
  have hpos := (hfill.start_mem hp).1
  have hrank := rank_le_of_emittedTime? hlt.le (start_of_emitPlanned he) (start_of_emitPlanned hf)
  have hun := unsigned_of_emittedTime? hpos (start_of_emitPlanned he)
  exact Binary64.sortsBefore_iff.mpr (Or.inr ⟨Binary64.isNan_of_isFinite hun.isFinite, hrank⟩)

theorem unsigned_of_fills (he : e ∈ events) : e.start.Unsigned := by
  obtain ⟨p, hp, hpe⟩ := exists_left_of_mem hall he
  exact unsigned_of_emittedTime? (hfill.start_mem hp).1 (start_of_emitPlanned hpe)

theorem head?_of_fills (hne : ps ≠ []) : ∃ e, events.head? = some e ∧ e.start = .zero := by
  cases hall with
  | nil => exact (hne rfl).elim
  | cons hpe _ =>
    have htime := start_of_emitPlanned hpe
    rw [hfill.start_eq, emittedTime?_zero] at htime
    exact ⟨_, rfl, (Option.some.inj htime).symm⟩

end

/-- The last event of a part is its pin. -/
theorem getLast?_of_mapM (h : (plan bpm interval measures).mapM emitPlanned = .ok events) :
    ∃ e, events.getLast? = some e ∧ emitPlanned (plannedPin bpm measures) = .ok e := by
  rw [plan, List.mapM_append, mapM_singleton] at h
  obtain ⟨es, _, h⟩ := exists_of_bind_eq_ok h
  obtain ⟨final, hfinal, h⟩ := exists_of_bind_eq_ok h
  cases h
  cases hpin : emitPlanned (plannedPin bpm measures) with
  | error fault =>
    rw [hpin] at hfinal
    cases hfinal
  | ok e =>
    rw [hpin] at hfinal
    cases hfinal
    exact ⟨e, List.getLast?_concat, rfl⟩

/-- An emitted plan begins at zero, keeps its order and ends with its pin. -/
theorem pinned_of_mapM (hbpm : 0 < bpm) (hmeasures : ∀ m ∈ measures, m.Forwards)
    (h : (plan bpm interval measures).mapM emitPlanned = .ok events) : Event.Pinned events := by
  have hall := mapM_eq_ok_iff.mp h
  have hfill : Fills 0 ((finalCursor bpm measures).position + 1) (plan bpm interval measures) :=
    fills_plan interval hbpm hmeasures (by linarith)
  have hne : plan bpm interval measures ≠ [] :=
    List.append_ne_nil_of_right_ne_nil _ (List.cons_ne_nil _ _)
  refine ⟨inOrder_of_fills hfill hall, fun _ => unsigned_of_fills hfill hall,
    head?_of_fills hfill hall hne, ?_⟩
  obtain ⟨e, hlast, hpin⟩ := getLast?_of_mapM h
  obtain ⟨t, _, rfl⟩ := emitPlanned_eq_ok.mp hpin
  exact ⟨_, hlast, rfl⟩

end Layout

namespace Pace

variable {pace : Pace} {bpm : Int} {measures : List Measure} {events : List Event}

/-- What an accepted pace is made of. -/
structure MadeOf (pace : Pace) (bpm step : Value) : Prop where
  tempo_pos : bpm.atMostZero = .ok false
  step_pos : step.atMostZero = .ok false
  interval : step.fraction = .ok pace.interval
  whole : ∀ n, bpm.quantity? = some (.whole n) → pace.tempo = .whole n
  broken : ∀ x, bpm = .float x → pace.tempo = .broken x

theorem madeOf_of_ofValues {bpm step : Value} (h : ofValues bpm step = .ok pace) :
    pace.MadeOf bpm step := by
  unfold ofValues at h
  obtain ⟨slow, hslow, h⟩ := exists_of_bind_eq_ok h
  cases slow with
  | true =>
    obtain ⟨_, hthrow, _⟩ := exists_of_bind_eq_ok h
    cases hthrow
  | false =>
    obtain ⟨short, hshort, h⟩ := exists_of_bind_eq_ok h
    cases short with
    | true =>
      obtain ⟨_, hthrow, _⟩ := exists_of_bind_eq_ok h
      cases hthrow
    | false =>
      obtain ⟨interval, hinterval, h⟩ := exists_of_bind_eq_ok h
      cases h
      refine ⟨hslow, hshort, hinterval, fun n hn => ?_, fun x hx => ?_⟩
      · cases bpm with
        | float x => cases hn
        | bool b =>
          cases hn
          rfl
        | int n =>
          cases hn
          rfl
        | _ => cases hn
      · cases hx
        rfl

/-- A pace keeps a tempo that is a whole number. -/
theorem tempo_of_ofValues {step : Value} (h : ofValues (.int bpm) step = .ok pace) :
    pace.tempo = .whole bpm :=
  (madeOf_of_ofValues h).whole bpm rfl

/-- The events of a part are its plan, emitted. -/
theorem events_eq (htempo : pace.tempo = .whole bpm)
    (h : ∀ m ∈ measures, bpm * m.divisions ≠ 0) :
    pace.events measures = (Layout.plan bpm pace.interval measures).mapM Layout.emitPlanned := by
  simp only [events, layOut, htempo, Layout.layOutPart_eq pace.interval h]
  cases (Layout.plan bpm pace.interval measures).mapM Layout.emitPlanned <;> rfl

/-- What keeps a part from being laid out, where nothing is divided by zero, is an event that starts
too late. -/
theorem eq_tooLong_of_events {fault : LayoutFault} (htempo : pace.tempo = .whole bpm)
    (hmeasures : ∀ m ∈ measures, bpm * m.divisions ≠ 0)
    (h : pace.events measures = .error fault) : fault = .tooLong := by
  rw [events_eq htempo hmeasures] at h
  obtain ⟨p, _, hp⟩ := exists_of_mapM_eq_error h
  exact Layout.eq_tooLong_of_emitPlanned hp

theorem mul_ne_zero_of_regular (hbpm : 0 < bpm) (hmeasures : ∀ m ∈ measures, m.Regular) :
    ∀ m ∈ measures, bpm * m.divisions ≠ 0 := fun m hm =>
  Int.ne_of_gt (Int.mul_pos hbpm (hmeasures m hm).divisions_pos)

/-- A part that is laid out at all has no measure without divisions. -/
theorem mul_ne_zero_of_events (htempo : pace.tempo = .whole bpm)
    (h : pace.events measures = .ok events) : ∀ m ∈ measures, bpm * m.divisions ≠ 0 := by
  have hlaid : ∀ (measures : List Measure) (cursor : Layout.Cursor) laid,
      Layout.layMeasures bpm pace.interval cursor measures = .ok laid →
        ∀ m ∈ measures, bpm * m.divisions ≠ 0 := by
    intro measures
    induction measures with
    | nil =>
      intro _ _ _ m hm
      cases hm
    | cons n ns ih =>
      intro cursor laid hlay
      unfold Layout.layMeasures at hlay
      split at hlay
      · cases hlay
      · next hzero =>
        obtain ⟨⟨_, next⟩, _, hlay⟩ := exists_of_bind_eq_ok hlay
        obtain ⟨rest, hrest, _⟩ := exists_of_bind_eq_ok hlay
        intro m hm
        rcases List.mem_cons.mp hm with rfl | hm
        · exact hzero
        · exact ih next rest hrest m hm
  simp only [Pace.events, layOut, htempo] at h
  cases hpart : Layout.layOutPart bpm pace.interval measures with
  | error fault =>
    rw [hpart] at h
    cases h
  | ok part =>
    obtain ⟨laid, hlay, _⟩ := exists_of_bind_eq_ok hpart
    exact hlaid measures .origin laid hlay

/-- At a positive tempo every part in which time runs forwards ends with a pin. -/
theorem pinned_events (htempo : pace.tempo = .whole bpm) (hbpm : 0 < bpm)
    (hmeasures : ∀ m ∈ measures, m.Forwards) (h : pace.events measures = .ok events) :
    Event.Pinned events := by
  rw [events_eq htempo (mul_ne_zero_of_events htempo h)] at h
  exact Layout.pinned_of_mapM hbpm hmeasures h

/-- The events of any part start at finite times. -/
theorem isFinite_of_mem_events (htempo : pace.tempo = .whole bpm)
    (h : pace.events measures = .ok events) {e : Event} (he : e ∈ events) :
    e.start.isFinite = true := by
  rw [events_eq htempo (mul_ne_zero_of_events htempo h), mapM_eq_ok_iff] at h
  obtain ⟨p, _, hp⟩ := exists_left_of_mem h he
  exact Layout.isFinite_of_emittedTime? (Layout.start_of_emitPlanned hp)

end Pace
end Bellows
