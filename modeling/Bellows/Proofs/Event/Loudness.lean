import Bellows.Event.Pace
import Bellows.Proofs.SideBySide

/-! Scores that differ only in their dynamics are laid out alike: the events of the one are those
of the other, up to the dynamics of what pumps air in. -/
namespace Bellows

variable {R : Dynamic → Dynamic → Prop}

/-- The same kind of note with related dynamics. -/
inductive NoteKind.Alike (R : Dynamic → Dynamic → Prop) : NoteKind → NoteKind → Prop
  | rest {d e : Dynamic} : R d e → Alike R (.rest d) (.rest e)
  | hold : Alike R .hold .hold
  | actuate {d e : Dynamic} : R d e → Alike R (.actuate d) (.actuate e)
  | trill {d e : Dynamic} : R d e → Alike R (.trill d) (.trill e)
  | hardTrill {d e : Dynamic} : R d e → Alike R (.hardTrill d) (.hardTrill e)

structure Note.Alike (R : Dynamic → Dynamic → Prop) (n n' : Note) : Prop where
  kind : n.kind.Alike R n'.kind
  duration : n.duration = n'.duration

structure Measure.Alike (R : Dynamic → Dynamic → Prop) (m m' : Measure) : Prop where
  number : m.number = m'.number
  signature : m.signature = m'.signature
  divisions : m.divisions = m'.divisions
  notes : List.Forall₂ (Note.Alike R) m.notes m'.notes

structure Part.Alike (R : Dynamic → Dynamic → Prop) (p p' : Part) : Prop where
  name : p.name = p'.name
  measures : List.Forall₂ (Measure.Alike R) p.measures p'.measures

/-- Scores with the same parts, measures, notes and durations, and with related dynamics. -/
def Score.Alike (R : Dynamic → Dynamic → Prop) (s s' : Score) : Prop :=
  List.Forall₂ (fun p p' => p.1 = p'.1 ∧ p.2.Alike R p'.2) s.entries s'.entries

/-- The same event; its dynamics are related where they count, which is where air is pumped in. -/
structure Event.Alike (R : Dynamic → Dynamic → Prop) (e e' : Event) : Prop where
  start : e.start = e'.start
  action : e.action = e'.action
  measure : e.measure = e'.measure
  note : e.note = e'.note
  dynamic : e.action.inflates = true → R e.dynamic e'.dynamic

theorem Event.Alike.idle : Event.Alike R .idle .idle :=
  ⟨rfl, rfl, rfl, rfl, fun h => nomatch h⟩

theorem Event.Alike.at {e e' : Event} (h : e.Alike R e') (start : Binary64) :
    (e.at start).Alike R (e'.at start) := ⟨rfl, h.action, h.measure, h.note, h.dynamic⟩

namespace Layout

variable {kind kind' : NoteKind} {c c' : Cursor}

/-- A note asks for the same actions at any loudness. -/
theorem steps_eq (h : kind.Alike R kind') (length interval : Rat) :
    steps kind length interval = steps kind' length interval := by
  cases h <;> rfl

/-- Only a hold has no loudness, and a hold does not pump. -/
theorem dynamic_of_inflates (h : kind.Alike R kind') {length interval : Rat} {p : Rat × Action}
    (hp : p ∈ steps kind length interval) (hin : p.2.inflates = true) :
    R kind.dynamic kind'.dynamic := by
  cases h with
  | rest hd | actuate hd | trill hd | hardTrill hd => exact hd
  | hold =>
    obtain rfl := List.mem_singleton.mp hp
    cases hin

/-- Whether an event can be written down depends on its start alone. -/
theorem emit_alike (start : Rat) {action : Action} {d d' : Dynamic}
    (h : action.inflates = true → R d d') (measure : Int) (note : Option Nat) :
    EndAlike (Event.Alike R) (emit start action d measure note)
      (emit start action d' measure note) := by
  unfold emit
  cases emittedTime? start with
  | none => exact .error _
  | some time => exact .ok ⟨rfl, rfl, rfl, rfl, h⟩

theorem noteEvents_alike (h : kind.Alike R kind') (interval : Rat) (measure : Int) (index : Nat)
    (start length : Rat) : EndAlike (List.Forall₂ (Event.Alike R))
      (noteEvents interval measure index kind start length)
      (noteEvents interval measure index kind' start length) := by
  unfold noteEvents
  rw [← steps_eq h]
  refine .mapM (List.forall₂_same.mpr fun p hp => ?_)
  exact emit_alike _ (dynamic_of_inflates h hp) _ _

/-- Related events, and the same place reached in the part. -/
structure Laid (R : Dynamic → Dynamic → Prop) (p p' : List Event × Cursor) : Prop where
  events : List.Forall₂ (Event.Alike R) p.1 p'.1
  position : p.2.position = p'.2.position

/-- Where a note starts depends on the durations before it, never on how loud they were. -/
theorem layNotes_alike {notes notes' : List Note} (h : List.Forall₂ (Note.Alike R) notes notes')
    (interval division : Rat) (measure : Int) (index : Nat) (hc : c.position = c'.position) :
    EndAlike (Laid R) (layNotes interval division measure index c notes)
      (layNotes interval division measure index c' notes') := by
  induction h generalizing index c c' with
  | nil => exact .ok ⟨.nil, hc⟩
  | cons hn _ ih =>
    unfold layNotes
    simp only [← hn.duration]
    split
    · exact ih (index + 1) hc
    · rw [← hc]
      refine (noteEvents_alike hn.kind ..).bind fun events events' hevents => ?_
      refine (ih (index + 1) (by simp only [hc])).bind fun rest rest' hrest => ?_
      exact .ok ⟨List.rel_append hevents hrest.events, hrest.position⟩

theorem layMeasures_alike {ms ms' : List Measure} (h : List.Forall₂ (Measure.Alike R) ms ms')
    (bpm : Int) (interval : Rat) (hc : c.position = c'.position) :
    EndAlike (Laid R) (layMeasures bpm interval c ms) (layMeasures bpm interval c' ms') := by
  induction h generalizing c c' with
  | nil => exact .ok ⟨.nil, hc⟩
  | cons hm _ ih =>
    unfold layMeasures
    rw [← hm.divisions, ← hm.number]
    split
    · exact .error _
    · refine (layNotes_alike hm.notes interval _ _ 0 hc).bind fun laid laid' hlaid => ?_
      refine (ih hlaid.position).bind fun rest rest' hrest => ?_
      exact .ok ⟨List.rel_append hlaid.events hrest.events, hrest.position⟩

/-- The pin waits, so that the loudness it is left with does not count. -/
theorem pin_alike {ms ms' : List Measure} (h : List.Forall₂ (Measure.Alike R) ms ms')
    (hc : c.position = c'.position) :
    EndAlike (Event.Alike R) (pin ms c) (pin ms' c') := by
  unfold pin
  rw [← hc, ← List.getLast?_map, ← List.getLast?_map,
    map_eq_of_forall₂ h fun _ _ hm => hm.number]
  exact emit_alike _ (fun hin => nomatch hin) _ _

theorem layOutPart_alike {ms ms' : List Measure} (h : List.Forall₂ (Measure.Alike R) ms ms')
    (bpm : Int) (interval : Rat) :
    EndAlike (fun p p' => List.Forall₂ (Event.Alike R) p.1 p'.1)
      (layOutPart bpm interval ms) (layOutPart bpm interval ms') := by
  refine (layMeasures_alike h bpm interval rfl).bind fun laid laid' hlaid => ?_
  refine (pin_alike h hlaid.position).bind fun final final' hfinal => ?_
  exact .ok (List.rel_append hlaid.events (.cons hfinal .nil))

end Layout

/-- A part has the same events at any loudness. -/
theorem Pace.events_alike (pace : Pace) {ms ms' : List Measure}
    (h : List.Forall₂ (Measure.Alike R) ms ms') :
    EndAlike (List.Forall₂ (Event.Alike R)) (pace.events ms) (pace.events ms') := by
  unfold events layOut
  cases pace.tempo with
  | whole bpm => exact (Layout.layOutPart_alike h bpm pace.interval).map fun _ _ hp => hp
  | broken bpm =>
    cases h with
    | nil => exact (Layout.layOutPart_alike .nil 1 pace.interval).map fun _ _ hp => hp
    | cons hm _ =>
      simp only [← hm.divisions]
      exact .error _

end Bellows
