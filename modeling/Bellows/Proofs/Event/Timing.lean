import Bellows.Proofs.Event.Extent

/-! The exact times of a part. Each note starts where all notes in front of it have passed, an
ornament repeats its two actions as often as they fit, and only the time of an event is rounded. -/
namespace Bellows

deriving instance DecidableEq for Planned

/-- A note of a part: the measure and the place in it where it stands, and the divisions that it is
counted in. -/
structure PlacedNote where
  measure : Int
  index : Nat
  divisions : Int
  note : Note

/-- The notes of a measure from the place `index` on. -/
def Measure.placedFrom (m : Measure) (index : Nat) (notes : List Note) : List PlacedNote :=
  notes.mapIdx fun i n => ⟨m.number, index + i, m.divisions, n⟩

/-- All notes of some measures in reading order. -/
def Measure.placed (measures : List Measure) : List PlacedNote :=
  measures.flatMap fun m => m.placedFrom 0 m.notes

namespace PlacedNote

/-- The exact milliseconds that a note takes. -/
def time (bpm : Int) (n : PlacedNote) : Rat := n.note.duration * 60000 / (bpm * n.divisions)

/-- The exact milliseconds that notes take one after another. -/
def totalTime (bpm : Int) (notes : List PlacedNote) : Rat := (notes.map (time bpm)).sum

end PlacedNote

/-- A note with its exact start and length. -/
structure TimedNote extends PlacedNote where
  start : Rat
  length : Rat

/-- What a note asks for with the event `i` of it. -/
def NoteKind.actionAt : NoteKind → Nat → Action
  | rest _, _ => .release
  | hold, _ => .noChange
  | actuate _, _ => .inflate
  | trill _, i => if Even i then .inflate else .noChange
  | hardTrill _, i => if Even i then .trillInflate else .trillRelease

/-- Whether a note has more than one event. -/
def NoteKind.IsOrnament : NoteKind → Prop
  | trill _ | hardTrill _ => True
  | rest _ | hold | actuate _ => False

instance (kind : NoteKind) : Decidable kind.IsOrnament := by
  cases kind <;> (unfold NoteKind.IsOrnament; infer_instance)

namespace TimedNote

variable (interval : Rat) (n : TimedNote)

/-- How many events a note has: an ornament has as many as whole intervals fit into it, and at
least one. -/
def eventCount : Nat := if n.note.kind.IsOrnament then max 1 ⌊n.length / interval⌋₊ else 1

/-- The events of a note at their exact times. -/
def planned : List Planned := (List.range (n.eventCount interval)).map fun (i : Nat) =>
  ⟨n.start + i * interval, n.note.kind.actionAt i, n.note.kind.dynamic, n.measure, some n.index⟩

/-- The loudness of the last one of some notes, or a given one if there is none. -/
def lastDynamic (d : Dynamic) (ns : List TimedNote) : Dynamic :=
  (ns.getLast?.map fun n => n.note.kind.dynamic).getD d

/-- The events of a note keep to its time, and those of an ornament that an interval fits into also
end within it. -/
structure Keeps : Prop where
  start_mem : ∀ p ∈ n.planned interval, n.start ≤ p.start ∧ p.start < n.start + n.length
  end_le : n.note.kind.IsOrnament → interval ≤ n.length →
    ∀ p ∈ n.planned interval, p.start + interval ≤ n.start + n.length

end TimedNote

/-- An event whose time is an exact one, rounded to the nearest number and then to thousandths. -/
structure Planned.RoundsTo (p : Planned) (e : Event) : Prop where
  start : ∃ x, Binary64.ofRat? p.start = some x ∧ e.start = x.roundThousandths
  action : e.action = p.action
  dynamic : e.dynamic = p.dynamic
  measure : e.measure = p.measure
  note : e.note = p.note

namespace Layout

open PlacedNote

/-- The notes that take time, laid one after another from a start on. -/
def timedFrom (bpm : Int) (start : Rat) (notes : List PlacedNote) : List TimedNote :=
  (notes.mapIdx fun k n => ⟨n, start + totalTime bpm (notes.take k), n.time bpm⟩).filter
    fun n => 0 < n.note.duration

/-- The notes of a part that take time. -/
def timedNotes (bpm : Int) (measures : List Measure) : List TimedNote :=
  timedFrom bpm 0 (Measure.placed measures)

/-- The end of a part: nothing changes, at the loudness of the last note that takes time. -/
def timedPin (bpm : Int) (measures : List Measure) : Planned :=
  ⟨totalTime bpm (Measure.placed measures), .noChange,
    TimedNote.lastDynamic .ppp (timedNotes bpm measures),
    (measures.getLast?.map Measure.number).getD 0, none⟩

/-- All events of a part at their exact times. -/
def exactPlan (bpm : Int) (interval : Rat) (measures : List Measure) : List Planned :=
  (timedNotes bpm measures).flatMap (TimedNote.planned interval) ++ [timedPin bpm measures]

variable {interval start length : Rat} {bpm : Int} {measures : List Measure} {m : Measure}
  {n : PlacedNote} {ns : List PlacedNote}

theorem timedFrom_cons (bpm : Int) (start : Rat) (n : PlacedNote) (ns : List PlacedNote) :
    timedFrom bpm start (n :: ns) =
      (if 0 < n.note.duration then [⟨n, start, n.time bpm⟩] else []) ++
        timedFrom bpm (start + n.time bpm) ns := by
  have hrest : (fun k (n' : PlacedNote) => (⟨n', start + totalTime bpm ((n :: ns).take (k + 1)),
      n'.time bpm⟩ : TimedNote)) = fun k n' =>
        ⟨n', start + n.time bpm + totalTime bpm (ns.take k), n'.time bpm⟩ := by
    funext k n'
    rw [List.take_succ_cons, totalTime, List.map_cons, List.sum_cons, ← add_assoc]
    rfl
  unfold timedFrom
  rw [List.mapIdx_cons, hrest, List.filter_cons]
  have hzero : start + totalTime bpm ((n :: ns).take 0) = start := by
    simp [totalTime]
  rw [hzero]
  by_cases h : 0 < n.note.duration
  · simp [h]
  · simp [h]

theorem timedFrom_append (bpm : Int) (start : Rat) (ns ns' : List PlacedNote) :
    timedFrom bpm start (ns ++ ns') =
      timedFrom bpm start ns ++ timedFrom bpm (start + totalTime bpm ns) ns' := by
  induction ns generalizing start with
  | nil => simp [timedFrom, totalTime]
  | cons n ns ih =>
    rw [List.cons_append, timedFrom_cons, timedFrom_cons, ih, List.append_assoc, add_assoc]
    rfl

/-- The steps of a note are its events, counted from its start. -/
theorem steps_eq_map_range (kind : NoteKind) (length interval : Rat) :
    steps kind length interval =
      (List.range (if kind.IsOrnament then max 1 ⌊length / interval⌋₊ else 1)).map
        fun (i : Nat) => (i * interval, kind.actionAt i) := by
  have hone (action : Action) :
      [(0, action)] = (List.range 1).map fun (i : Nat) => ((i : Rat) * interval, action) := by
    simp
  have hornament (active passive : Action) : ornamentSteps active passive length interval =
      (List.range (max 1 ⌊length / interval⌋₊)).map fun (i : Nat) =>
        ((i : Rat) * interval, if Even i then active else passive) := by
    simp only [ornamentSteps, stepCount, Nat.even_iff]
    rfl
  cases kind with
  | rest d => exact hone .release
  | hold => exact hone .noChange
  | actuate d => exact hone .inflate
  | trill d => exact hornament .inflate .noChange
  | hardTrill d => exact hornament .trillInflate .trillRelease

theorem time_eq (bpm : Int) (n : PlacedNote) :
    n.time bpm = n.note.duration * divisionLength bpm n.divisions := by
  rw [PlacedNote.time, divisionLength, Int.cast_mul, mul_div_assoc]

theorem time_pos (hn : 0 < n.note.duration) (hdivisions : 0 < bpm * n.divisions) :
    0 < n.time bpm := by
  have hn' : (0 : Rat) < n.note.duration := by exact_mod_cast hn
  have hdivisions' : (0 : Rat) < bpm * n.divisions := by exact_mod_cast hdivisions
  unfold PlacedNote.time
  positivity

/-- A note of positive duration is planned as it is timed; one of no duration has no events. -/
theorem planNote_eq (interval start : Rat) (hn : 0 ≤ n.note.duration)
    (hdivisions : 0 < bpm * n.divisions) :
    planNote interval (divisionLength bpm n.divisions) n.measure n.index start n.note =
      if 0 < n.note.duration then TimedNote.planned interval ⟨n, start, n.time bpm⟩ else [] := by
  rw [planNote, ← time_eq]
  by_cases hpos : 0 < n.note.duration
  · rw [if_neg (time_pos hpos hdivisions).ne', if_pos hpos, steps_eq_map_range, List.map_map]
    rfl
  · have hzero : n.note.duration = 0 := by omega
    rw [if_pos (by simp [PlacedNote.time, hzero]), if_neg hpos]

theorem placedFrom_cons (m : Measure) (index : Nat) (note : Note) (notes : List Note) :
    m.placedFrom index (note :: notes) =
      ⟨m.number, index, m.divisions, note⟩ :: m.placedFrom (index + 1) notes := by
  unfold Measure.placedFrom
  rw [List.mapIdx_cons]
  simp only [Nat.add_zero, Nat.add_comm 1, Nat.add_assoc]

theorem totalTime_placedFrom (bpm : Int) (m : Measure) (index : Nat) (notes : List Note) :
    totalTime bpm (m.placedFrom index notes) =
      ((notes.map Note.duration).sum : Int) * divisionLength bpm m.divisions := by
  induction notes generalizing index with
  | nil => simp [totalTime, Measure.placedFrom]
  | cons note notes ih =>
    have hrest := ih (index + 1)
    unfold totalTime at hrest ⊢
    rw [placedFrom_cons, List.map_cons, List.sum_cons, hrest, time_eq, List.map_cons,
      List.sum_cons, Int.cast_add, add_mul]

theorem placed_cons (m : Measure) (ms : List Measure) :
    Measure.placed (m :: ms) = m.placedFrom 0 m.notes ++ Measure.placed ms := List.flatMap_cons

/-- The length of a part is that of its notes. -/
theorem totalTime_placed (bpm : Int) (measures : List Measure) :
    totalTime bpm (Measure.placed measures) = partLength bpm measures := by
  induction measures with
  | nil => rfl
  | cons m ms ih =>
    have happend (ns ns' : List PlacedNote) :
        totalTime bpm (ns ++ ns') = totalTime bpm ns + totalTime bpm ns' := by
      rw [totalTime, List.map_append, List.sum_append]
      rfl
    rw [placed_cons, happend, totalTime_placedFrom, ih, partLength, partLength, List.map_cons,
      List.sum_cons]

theorem lastDynamic_append (d : Dynamic) (ns ns' : List TimedNote) :
    TimedNote.lastDynamic d (ns ++ ns') =
      TimedNote.lastDynamic (TimedNote.lastDynamic d ns) ns' := by
  simp only [TimedNote.lastDynamic, List.getLast?_append]
  cases ns'.getLast? <;> rfl

section

variable (hbpm : 0 < bpm)
include hbpm

/-- The notes of a measure are planned as they are timed. -/
theorem planNotes_eq (interval : Rat) (index : Nat) (cursor : Cursor) {notes : List Note}
    (hdivisions : 0 < m.divisions) (hnotes : ∀ n ∈ notes, 0 ≤ n.duration) :
    planNotes interval (divisionLength bpm m.divisions) m.number index cursor notes =
      (timedFrom bpm cursor.position (m.placedFrom index notes)).flatMap
        (TimedNote.planned interval) := by
  induction notes generalizing index cursor with
  | nil => rfl
  | cons note notes ih =>
    obtain ⟨hnote, hrest⟩ := List.forall_mem_cons.mp hnotes
    have hfirst := planNote_eq (n := ⟨m.number, index, m.divisions, note⟩) interval cursor.position
      hnote (Int.mul_pos hbpm hdivisions)
    rw [planNotes, hfirst, ih (index + 1) _ hrest, position_past, placedFrom_cons, timedFrom_cons,
      List.flatMap_append, time_eq]
    split
    · rw [List.flatMap_singleton]
    · rfl

/-- The loudness of a cursor is that of the last note behind it that takes time. -/
theorem dynamic_past_notes (index : Nat) (cursor : Cursor) {notes : List Note}
    (hdivisions : 0 < m.divisions) (hnotes : ∀ n ∈ notes, 0 ≤ n.duration) :
    (notes.foldl (Cursor.past (divisionLength bpm m.divisions)) cursor).dynamic =
      TimedNote.lastDynamic cursor.dynamic
        (timedFrom bpm cursor.position (m.placedFrom index notes)) := by
  induction notes generalizing index cursor with
  | nil => rfl
  | cons note notes ih =>
    obtain ⟨hnote, hrest⟩ := List.forall_mem_cons.mp hnotes
    have hpos := @time_pos bpm ⟨m.number, index, m.divisions, note⟩
    rw [List.foldl_cons, ih (index + 1) _ hrest, position_past, placedFrom_cons, timedFrom_cons,
      lastDynamic_append, time_eq]
    congr 1
    unfold Cursor.past
    by_cases hzero : note.duration = 0
    · simp [hzero, TimedNote.lastDynamic]
    · have hlength := hpos (by dsimp only; omega) (Int.mul_pos hbpm hdivisions)
      rw [time_eq] at hlength
      rw [if_neg hlength.ne', if_pos (by dsimp only; omega)]
      rfl

variable (hmeasures : ∀ m ∈ measures, m.Regular)
include hmeasures

theorem planMeasures_eq (interval : Rat) (cursor : Cursor) :
    planMeasures bpm interval cursor measures =
      (timedFrom bpm cursor.position (Measure.placed measures)).flatMap
        (TimedNote.planned interval) := by
  induction measures generalizing cursor with
  | nil => rfl
  | cons m ms ih =>
    obtain ⟨hm, hrest⟩ := List.forall_mem_cons.mp hmeasures
    rw [planMeasures, planNotes_eq hbpm interval 0 cursor hm.divisions_pos hm.duration_nonneg,
      ih hrest, placed_cons, timedFrom_append, List.flatMap_append, totalTime_placedFrom,
      Cursor.pastMeasure, position_past_notes]

theorem dynamic_past_measures (cursor : Cursor) :
    (measures.foldl (Cursor.pastMeasure bpm) cursor).dynamic =
      TimedNote.lastDynamic cursor.dynamic
        (timedFrom bpm cursor.position (Measure.placed measures)) := by
  induction measures generalizing cursor with
  | nil => rfl
  | cons m ms ih =>
    obtain ⟨hm, hrest⟩ := List.forall_mem_cons.mp hmeasures
    rw [List.foldl_cons, ih hrest, placed_cons, timedFrom_append, lastDynamic_append,
      totalTime_placedFrom, Cursor.pastMeasure, position_past_notes,
      dynamic_past_notes hbpm 0 cursor hm.divisions_pos hm.duration_nonneg]

/-- A part is planned at its exact times. -/
theorem plan_eq_exactPlan (interval : Rat) :
    plan bpm interval measures = exactPlan bpm interval measures := by
  have hpin : plannedPin bpm measures = timedPin bpm measures := by
    rw [plannedPin, timedPin, position_finalCursor, totalTime_placed, finalCursor,
      dynamic_past_measures hbpm hmeasures]
    rfl
  rw [plan, planMeasures_eq hbpm hmeasures, hpin]
  rfl

end

end Layout

namespace TimedNote

variable {interval : Rat} {n : TimedNote} {i : Nat}

/-- Behind the first event of a note there is another one only if it fits. -/
theorem fits_of_lt_eventCount (hn : 0 < n.length) (hi : i < n.eventCount interval)
    (hpos : 0 < i) : 0 < interval ∧ (i + 1 : Nat) * interval ≤ n.length := by
  have hfloor : i + 1 ≤ ⌊n.length / interval⌋₊ := by
    unfold eventCount at hi
    split at hi <;> omega
  have hinterval : 0 < interval := by
    by_contra hneg
    have hquot := div_nonpos_of_nonneg_of_nonpos hn.le (not_lt.mp hneg)
    rw [Nat.floor_of_nonpos hquot] at hfloor
    omega
  have hquot := (Nat.le_floor_iff (div_nonneg hn.le hinterval.le)).mp hfloor
  exact ⟨hinterval, (le_div_iff₀ hinterval).mp hquot⟩

theorem exists_of_mem_planned {p : Planned} (hp : p ∈ n.planned interval) :
    ∃ i < n.eventCount interval, p.start = n.start + i * interval := by
  obtain ⟨i, hi, rfl⟩ := List.mem_map.mp hp
  exact ⟨i, List.mem_range.mp hi, rfl⟩

theorem keeps_of_pos (hn : 0 < n.length) (interval : Rat) : n.Keeps interval := by
  refine ⟨fun p hp => ?_, fun _ hfit p hp => ?_⟩
  all_goals
    obtain ⟨i, hi, hstart⟩ := exists_of_mem_planned hp
    rw [hstart]
    rcases Nat.eq_zero_or_pos i with rfl | hpos
  · simpa using hn
  · obtain ⟨hinterval, hend⟩ := fits_of_lt_eventCount hn hi hpos
    have hle : 0 ≤ (i : Rat) * interval := by positivity
    push_cast at hend
    constructor <;> linarith
  · simpa using hfit
  · obtain ⟨_, hend⟩ := fits_of_lt_eventCount hn hi hpos
    push_cast at hend
    linarith

end TimedNote

theorem Layout.length_pos_of_mem_timedNotes {bpm : Int} {measures : List Measure} {n : TimedNote}
    (hbpm : 0 < bpm) (hmeasures : ∀ m ∈ measures, m.Regular) (hn : n ∈ timedNotes bpm measures) :
    0 < n.length := by
  obtain ⟨hmem, hduration⟩ := List.mem_filter.mp hn
  obtain ⟨k, hk, rfl⟩ := List.mem_mapIdx.mp hmem
  obtain ⟨m, hm, hplaced⟩ := List.mem_flatMap.mp (List.getElem_mem hk)
  obtain ⟨i, hi, hnote⟩ := List.mem_mapIdx.mp hplaced
  have hdivisions : ((Measure.placed measures)[k]).divisions = m.divisions := by rw [← hnote]
  refine time_pos (of_decide_eq_true hduration) ?_
  rw [hdivisions]
  exact Int.mul_pos hbpm (hmeasures m hm).divisions_pos

theorem Layout.roundsTo_of_emitPlanned {p : Planned} {e : Event} (h : emitPlanned p = .ok e) :
    p.RoundsTo e := by
  obtain ⟨t, ht, rfl⟩ := emitPlanned_eq_ok.mp h
  obtain ⟨x, hx, rfl⟩ := Option.map_eq_some_iff.mp ht
  exact ⟨⟨x, hx, rfl⟩, rfl, rfl, rfl, rfl⟩

namespace Pace

open Layout

variable {pace : Pace} {bpm : Int} {measures : List Measure}

/-- The exact layout of a part whose length is a finite number. Its events are those of its notes
that take time, in reading order, and then the pin. A note starts at the exact sum of the lengths of
all earlier ones and keeps to its own time; exact times increase from event to event; and the time
of an event is the exact one, rounded by itself. -/
theorem events_exact (htempo : pace.tempo = .whole bpm) (hbpm : 0 < bpm)
    (hmeasures : ∀ m ∈ measures, m.Regular)
    (hlength :
      (Binary64.ofRat? (PlacedNote.totalTime bpm (Measure.placed measures))).isSome = true) :
    ∃ events, pace.events measures = .ok events ∧
      List.Forall₂ Planned.RoundsTo (exactPlan bpm pace.interval measures) events ∧
      (exactPlan bpm pace.interval measures).Pairwise (fun p q => p.start < q.start) ∧
      ∀ n ∈ timedNotes bpm measures, n.Keeps pace.interval := by
  rw [totalTime_placed] at hlength
  obtain ⟨events, hevents⟩ := exists_events_eq_ok htempo hbpm hmeasures hlength
  have hall := hevents
  rw [events_eq htempo (mul_ne_zero_of_regular hbpm hmeasures), mapM_eq_ok_iff] at hall
  have hfill := fills_plan pace.interval hbpm (fun m hm => (hmeasures m hm).forwards)
    (lt_add_one _)
  rw [plan_eq_exactPlan hbpm hmeasures] at hall hfill
  exact ⟨events, hevents, hall.imp fun _ _ => roundsTo_of_emitPlanned, hfill.pairwise,
    fun n hn => TimedNote.keeps_of_pos (length_pos_of_mem_timedNotes hbpm hmeasures hn) _⟩

/-- A note, one of no duration, and an ornament into which three steps fit; then, with the quarter
note in three divisions, an ornament into which one step fits. -/
def ornamented : List Measure :=
  [⟨1, ⟨2, 4⟩, 1, [⟨.actuate .mf, 1⟩, ⟨.rest .p, 0⟩, ⟨.hardTrill .p, 1⟩]⟩,
    ⟨2, ⟨1, 4⟩, 3, [⟨.trill .f, 1⟩, ⟨.hold, 2⟩]⟩]

theorem exactPlan_ornamented : exactPlan 60 300 ornamented = [
    ⟨0, .inflate, .mf, 1, some 0⟩,
    ⟨1000, .trillInflate, .p, 1, some 2⟩, ⟨1300, .trillRelease, .p, 1, some 2⟩,
    ⟨1600, .trillInflate, .p, 1, some 2⟩,
    ⟨2000, .inflate, .f, 2, some 0⟩, ⟨2000 + 1000 / 3, .noChange, .ppp, 2, some 1⟩,
    ⟨3000, .noChange, .ppp, 2, none⟩] := by
  decide +kernel

/-- Four notes of which each starts exactly where the ones before it end. -/
theorem events_exact_ornamented : (⟨.whole 60, 300⟩ : Pace).tempo = .whole 60 ∧ (0 : Int) < 60 ∧
    (∀ m ∈ ornamented, m.Regular) ∧
    (Binary64.ofRat? (PlacedNote.totalTime 60 (Measure.placed ornamented))).isSome = true ∧
    ∃ events, (⟨.whole 60, 300⟩ : Pace).events ornamented = .ok events ∧
      List.Forall₂ Planned.RoundsTo [
        ⟨0, .inflate, .mf, 1, some 0⟩,
        ⟨1000, .trillInflate, .p, 1, some 2⟩, ⟨1300, .trillRelease, .p, 1, some 2⟩,
        ⟨1600, .trillInflate, .p, 1, some 2⟩,
        ⟨2000, .inflate, .f, 2, some 0⟩, ⟨2000 + 1000 / 3, .noChange, .ppp, 2, some 1⟩,
        ⟨3000, .noChange, .ppp, 2, none⟩] events := by
  have htempo : (⟨.whole 60, 300⟩ : Pace).tempo = .whole 60 := rfl
  have hmeasures : ∀ m ∈ ornamented, m.Regular := by decide +kernel
  have hlength : (Binary64.ofRat?
      (PlacedNote.totalTime 60 (Measure.placed ornamented))).isSome = true := by decide +kernel
  obtain ⟨events, hevents, hall, _, _⟩ :=
    events_exact htempo (by decide) hmeasures hlength
  rw [exactPlan_ornamented] at hall
  exact ⟨htempo, by decide, hmeasures, hlength, events, hevents, hall⟩

end Pace

end Bellows
