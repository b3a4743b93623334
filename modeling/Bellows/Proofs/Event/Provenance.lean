import Bellows.Proofs.Event.Pinned

/-! Where events come from: whatever asks the pump for something names the measure and the note
that it was written in. -/
namespace Bellows

/-- What a note of some kind asks for at least at some of its steps. -/
inductive NoteKind.Yields : NoteKind → Action → Prop
  | rest (d : Dynamic) : Yields (.rest d) .release
  | actuate (d : Dynamic) : Yields (.actuate d) .inflate
  | trill (d : Dynamic) : Yields (.trill d) .inflate
  | hardTrillInflate (d : Dynamic) : Yields (.hardTrill d) .trillInflate
  | hardTrillRelease (d : Dynamic) : Yields (.hardTrill d) .trillRelease

/-- Among some measures there is one of a number with a note at a place that takes time and asks
for an action. -/
def Measure.Asks (measures : List Measure) (number : Int) (place : Option Nat) (a : Action) :
    Prop :=
  ∃ m ∈ measures, m.number = number ∧ ∃ index note, place = some index ∧
    m.notes[index]? = some note ∧ 0 < note.duration ∧ note.kind.Yields a

namespace Layout

variable {interval division start length : Rat} {number bpm : Int} {index : Nat} {kind : NoteKind}
  {cursor : Cursor} {note : Note} {notes : List Note} {m : Measure} {measures : List Measure}
  {p : Planned} {active passive : Action} {step : Rat × Action}

theorem mem_ornamentSteps (h : step ∈ ornamentSteps active passive length interval) :
    step.2 = active ∨ step.2 = passive := by
  obtain ⟨i, _, rfl⟩ := List.mem_map.mp h
  by_cases hi : i % 2 = 0
  · exact Or.inl (if_pos hi)
  · exact Or.inr (if_neg hi)

/-- The steps of a note wait, or ask for what its kind yields. -/
theorem yields_of_mem_steps (h : step ∈ steps kind length interval) (hact : step.2 ≠ .noChange) :
    kind.Yields step.2 := by
  cases kind with
  | rest d =>
    obtain rfl := List.mem_singleton.mp h
    exact .rest d
  | hold =>
    obtain rfl := List.mem_singleton.mp h
    exact (hact rfl).elim
  | actuate d =>
    obtain rfl := List.mem_singleton.mp h
    exact .actuate d
  | trill d =>
    rcases mem_ornamentSteps h with hinflate | hwait
    · exact hinflate ▸ .trill d
    · exact (hact hwait).elim
  | hardTrill d =>
    rcases mem_ornamentSteps h with hinflate | hrelease
    · exact hinflate ▸ .hardTrillInflate d
    · exact hrelease ▸ .hardTrillRelease d

/-- A planned event of a note names the note, which has a length. -/
theorem origin_of_mem_planNote (h : p ∈ planNote interval division number index start note)
    (hact : p.action ≠ .noChange) :
    p.measure = number ∧ p.note = some index ∧ note.duration ≠ 0 ∧ note.kind.Yields p.action := by
  unfold planNote at h
  by_cases hlength : note.duration * division = 0
  · rw [if_pos hlength] at h
    cases h
  · rw [if_neg hlength] at h
    obtain ⟨step, hstep, rfl⟩ := List.mem_map.mp h
    refine ⟨rfl, rfl, fun hzero => hlength ?_, yields_of_mem_steps hstep hact⟩
    rw [hzero, Int.cast_zero, zero_mul]

/-- Notes are counted from where the plan of them begins. -/
theorem origin_of_mem_planNotes (h : p ∈ planNotes interval division number index cursor notes)
    (hact : p.action ≠ .noChange) :
    p.measure = number ∧ ∃ i note, p.note = some (index + i) ∧ notes[i]? = some note ∧
      note.duration ≠ 0 ∧ note.kind.Yields p.action := by
  induction notes generalizing index cursor with
  | nil => cases h
  | cons note notes ih =>
    rcases List.mem_append.mp h with hfirst | hrest
    · obtain ⟨hnumber, hplace, hlength, hyields⟩ := origin_of_mem_planNote hfirst hact
      exact ⟨hnumber, 0, note, hplace, rfl, hlength, hyields⟩
    · obtain ⟨hnumber, i, later, hplace, hget, hlength, hyields⟩ := ih hrest
      exact ⟨hnumber, i + 1, later, by rw [hplace, Nat.add_assoc, Nat.add_comm 1], hget, hlength,
        hyields⟩

/-- In measures in which time runs forwards, planned events come from notes that take time. -/
theorem asks_of_mem_planMeasures (hmeasures : ∀ m ∈ measures, m.Regular)
    (h : p ∈ planMeasures bpm interval cursor measures) (hact : p.action ≠ .noChange) :
    Measure.Asks measures p.measure p.note p.action := by
  induction measures generalizing cursor with
  | nil => cases h
  | cons m ms ih =>
    rcases List.mem_append.mp h with hfirst | hrest
    · obtain ⟨hnumber, i, note, hplace, hget, hlength, hyields⟩ :=
        origin_of_mem_planNotes hfirst hact
      have hnonneg := (hmeasures m List.mem_cons_self).duration_nonneg note
        (List.mem_of_getElem? hget)
      rw [Nat.zero_add] at hplace
      exact ⟨m, List.mem_cons_self, hnumber.symm, i, note, hplace, hget, by omega, hyields⟩
    · obtain ⟨n, hn, horigin⟩ := ih (fun n hn => hmeasures n (List.mem_cons_of_mem _ hn)) hrest
      exact ⟨n, List.mem_cons_of_mem _ hn, horigin⟩

/-- The pin of a part asks for nothing, so everything else comes from a note. -/
theorem asks_of_mem_plan (hmeasures : ∀ m ∈ measures, m.Regular)
    (h : p ∈ plan bpm interval measures) (hact : p.action ≠ .noChange) :
    Measure.Asks measures p.measure p.note p.action := by
  rcases List.mem_append.mp h with hp | hpin
  · exact asks_of_mem_planMeasures hmeasures hp hact
  · obtain rfl := List.mem_singleton.mp hpin
    exact (hact rfl).elim

end Layout

namespace Pace

variable {pace : Pace} {bpm : Int} {measures : List Measure} {events : List Event} {e : Event}

/-- Every event of a part that asks for something comes from a note of the part that takes time. -/
theorem asks_of_mem_events (htempo : pace.tempo = .whole bpm) (hbpm : 0 < bpm)
    (hmeasures : ∀ m ∈ measures, m.Regular) (h : pace.events measures = .ok events)
    (he : e ∈ events) (hact : e.action ≠ .noChange) :
    Measure.Asks measures e.measure e.note e.action := by
  rw [events_eq htempo (mul_ne_zero_of_regular hbpm hmeasures), mapM_eq_ok_iff] at h
  obtain ⟨p, hp, hemit⟩ := exists_left_of_mem h he
  obtain ⟨t, _, rfl⟩ := Layout.emitPlanned_eq_ok.mp hemit
  exact Layout.asks_of_mem_plan hmeasures hp hact

end Pace
end Bellows
