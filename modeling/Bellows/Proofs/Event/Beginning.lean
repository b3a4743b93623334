import Bellows.Proofs.Event.Extent

/-! Parts that begin with the same measures. These have the same events in both parts, and nothing
behind them starts before they end. -/
namespace Bellows

/-- Event lists that agree before a moment: they begin alike, and what follows starts then or
later. -/
def Event.SameBefore (c : Binary64) (events events' : List Event) : Prop :=
  ∃ early late late', events = early ++ late ∧ events' = early ++ late' ∧
    (∀ e ∈ late, ¬ e.start.lt c = true) ∧ ∀ e ∈ late', ¬ e.start.lt c = true

namespace Event.SameBefore

theorem nil (c : Binary64) : SameBefore c [] [] :=
  ⟨[], [], [], rfl, rfl, fun _ he => (by cases he), fun _ he => (by cases he)⟩

/-- The starts before the moment are the same. -/
theorem filter_starts {c : Binary64} {events events' : List Event}
    (h : SameBefore c events events') :
    (events.map Event.start).filter (·.lt c) = (events'.map Event.start).filter (·.lt c) := by
  have hnone {late : List Event} (hlate : ∀ e ∈ late, ¬ e.start.lt c = true) :
      (late.map Event.start).filter (·.lt c) = [] := by
    refine List.filter_eq_nil_iff.mpr fun x hx => ?_
    obtain ⟨e, he, rfl⟩ := List.mem_map.mp hx
    exact hlate e he
  obtain ⟨early, late, late', rfl, rfl, hlate, hlate'⟩ := h
  rw [List.map_append, List.map_append, List.filter_append, List.filter_append, hnone hlate,
    hnone hlate']

end Event.SameBefore

namespace Layout

variable {bpm : Int} {measures shared rest : List Measure}

theorem planMeasures_append (bpm : Int) (interval : Rat) (cursor : Cursor)
    (shared rest : List Measure) : planMeasures bpm interval cursor (shared ++ rest) =
      planMeasures bpm interval cursor shared ++
        planMeasures bpm interval (shared.foldl (Cursor.pastMeasure bpm) cursor) rest := by
  induction shared generalizing cursor with
  | nil => rfl
  | cons m ms ih =>
    rw [List.cons_append, planMeasures, planMeasures, ih, List.foldl_cons, List.append_assoc]

/-- What the plan of a part holds behind its first measures. -/
def planBehind (bpm : Int) (interval : Rat) (shared rest : List Measure) : List Planned :=
  planMeasures bpm interval (finalCursor bpm shared) rest ++ [plannedPin bpm (shared ++ rest)]

theorem plan_append (bpm : Int) (interval : Rat) (shared rest : List Measure) :
    plan bpm interval (shared ++ rest) =
      planMeasures bpm interval .origin shared ++ planBehind bpm interval shared rest := by
  rw [plan, planMeasures_append, List.append_assoc]
  rfl

/-- Behind its first measures a part goes on where they end. -/
theorem fills_planBehind (interval : Rat) (shared : List Measure) (hbpm : 0 < bpm)
    (hrest : ∀ m ∈ rest, m.Forwards) : Fills (partLength bpm shared)
      ((finalCursor bpm (shared ++ rest)).position + 1)
      (planBehind bpm interval shared rest) := by
  have hmeasures := fills_planMeasures interval (finalCursor bpm shared) hbpm hrest
  have hend : rest.foldl (Cursor.pastMeasure bpm) (finalCursor bpm shared) =
      finalCursor bpm (shared ++ rest) := (List.foldl_append ..).symm
  rw [hend, position_finalCursor bpm shared] at hmeasures
  exact hmeasures.append (Fills.singleton (p := plannedPin bpm (shared ++ rest)) (lt_add_one _))

end Layout

namespace Pace

open Layout

variable {pace : Pace} {bpm : Int} {shared rest rest' : List Measure} {events events' : List Event}
  {q : Rat} {c : Binary64}

/-- The events of a part are those of its first measures and, from their end on, others. -/
theorem exists_events_append (htempo : pace.tempo = .whole bpm) (hbpm : 0 < bpm)
    (hrest : ∀ m ∈ rest, m.Forwards) (h : pace.events (shared ++ rest) = .ok events) :
    ∃ early late, (planMeasures bpm pace.interval .origin shared).mapM emitPlanned = .ok early ∧
      events = early ++ late ∧ (∃ c, emittedTime? (partLength bpm shared) = some c) ∧
      ∀ e ∈ late, ∃ q, partLength bpm shared ≤ q ∧ emittedTime? q = some e.start := by
  have hfill := fills_planBehind pace.interval shared hbpm hrest
  rw [events_eq htempo (mul_ne_zero_of_events htempo h), plan_append, List.mapM_append] at h
  obtain ⟨early, hearly, h⟩ := exists_of_bind_eq_ok h
  obtain ⟨late, hlate, h⟩ := exists_of_bind_eq_ok h
  cases h
  rw [mapM_eq_ok_iff] at hlate
  refine ⟨early, late, hearly, rfl, ?_, fun e he => ?_⟩
  · -- the first event behind the shared measures starts exactly where they end
    have hne : planBehind bpm pace.interval shared rest ≠ [] :=
      List.append_ne_nil_of_right_ne_nil _ (List.cons_ne_nil _ _)
    generalize planBehind bpm pace.interval shared rest = behind at hfill hlate hne
    cases hlate with
    | nil => exact (hne rfl).elim
    | cons hpe _ =>
      have hstart := start_of_emitPlanned hpe
      rw [hfill.start_eq] at hstart
      exact ⟨_, hstart⟩
  · obtain ⟨p, hp, hpe⟩ := exists_left_of_mem hlate he
    exact ⟨p.start, (hfill.start_mem hp).1, start_of_emitPlanned hpe⟩

/-- Parts with the same first measures agree before any moment up to the end of these. -/
theorem sameBefore_of_shared (htempo : pace.tempo = .whole bpm) (hbpm : 0 < bpm)
    (hrest : ∀ m ∈ rest, m.Forwards) (hrest' : ∀ m ∈ rest', m.Forwards)
    (h : pace.events (shared ++ rest) = .ok events)
    (h' : pace.events (shared ++ rest') = .ok events') (hq : q ≤ partLength bpm shared)
    (hc : emittedTime? q = some c) : Event.SameBefore c events events' := by
  obtain ⟨early, late, hearly, rfl, _, hlate⟩ := exists_events_append htempo hbpm hrest h
  obtain ⟨early', late', hearly', rfl, _, hlate'⟩ := exists_events_append htempo hbpm hrest' h'
  cases hearly.symm.trans hearly'
  have hbehind : ∀ e : Event, (∃ u, partLength bpm shared ≤ u ∧ emittedTime? u = some e.start) →
      ¬ e.start.lt c = true := by
    rintro e ⟨u, hu, he⟩ hlt
    have hrank := rank_le_of_emittedTime? (hq.trans hu) hc he
    obtain ⟨_, _, hbefore⟩ := Binary64.lt_iff.mp hlt
    omega
  exact ⟨early, late, late', rfl, rfl, fun e he => hbehind e (hlate e he),
    fun e he => hbehind e (hlate' e he)⟩

end Pace
end Bellows
