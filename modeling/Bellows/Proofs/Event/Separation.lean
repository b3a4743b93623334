import Bellows.Proofs.Binary64.Error
import Bellows.Proofs.Event.Timing

/-! What rounding leaves of the order of a part. Events never change places, but the exact times of
two of them have to lie further apart than rounding can see for the later one to be emitted later
(`events_ordered`). -/
namespace Bellows

deriving instance DecidableEq for Tempo
deriving instance DecidableEq for Pace

namespace Layout

variable {interval start gap p q : Rat} {t u : Binary64} {bpm : Int} {measures : List Measure}
  {ns : List PlacedNote}

/-- How many milliseconds an exact time has to lie behind an earlier one for the two to be told
apart when they are emitted: a thousandth, and a share of the later one. -/
def resolution (q : Rat) : Rat := 1 / 1000 + (q + 1) / 2 ^ 50

theorem resolution_nonneg (hq : 0 ≤ q) : 0 ≤ resolution q := by
  unfold resolution
  positivity

theorem resolution_mono (h : p ≤ q) : resolution p ≤ resolution q := by
  unfold resolution
  linarith

theorem natAbs_num_div_den (hq : 0 ≤ q) : ((q.num.natAbs : Nat) : Rat) / q.den = q := by
  rw [Nat.cast_natAbs, abs_of_nonneg (Rat.num_nonneg.mpr hq), Rat.num_div_den]

theorem abs_nearestGrains_sub_le (hq : 0 ≤ q) :
    |(nearestGrains q : Rat) / Binary64.unit - q| ≤ (q + 1) / 2 ^ 53 := by
  have hround := Binary64.abs_nearest_unit_sub_le q.num.natAbs q.den_pos
  rwa [natAbs_num_div_den hq] at hround

/-- An emitted time is off by half a thousandth, and by a share of the exact time at most. -/
theorem abs_value_sub_le (hq : 0 ≤ q) (h : emittedTime? q = some t) :
    |t.value - q| ≤ 1 / 2000 + (q + 1) / 2 ^ 51 := by
  have hfin := isFinite_of_emittedTime? h
  obtain ⟨_, _, rfl⟩ := emittedTime?_eq_some.mp h
  have hsign : decide (q < 0) = false := decide_eq_false (not_lt.mpr hq)
  have hnearest := abs_nearestGrains_sub_le hq
  obtain ⟨k, hthousandths, hlast⟩ := Binary64.abs_thousandthGrains_sub_le (nearestGrains q)
  rw [Binary64.value_eq hfin]
  simp only [Binary64.rank, Binary64.signed, hsign, Bool.false_eq_true, if_false, Int.cast_natCast]
  rw [abs_le] at hnearest hthousandths hlast ⊢
  constructor <;> linarith

/-- Times that are further apart than rounding can see keep their order. -/
theorem lt_of_resolution (hp : 0 ≤ p) (h : p + resolution q < q) (ht : emittedTime? p = some t)
    (hu : emittedTime? q = some u) : t.lt u = true := by
  have hq : 0 ≤ q := by
    by_contra hneg
    unfold resolution at h
    linarith
  have hbelow := abs_le.mp (abs_value_sub_le hp ht)
  have habove := abs_le.mp (abs_value_sub_le hq hu)
  rw [Binary64.lt_iff_value (isFinite_of_emittedTime? ht) (isFinite_of_emittedTime? hu)]
  unfold resolution at h
  linarith

end Layout

namespace TimedNote

open Layout

variable {interval gap : Rat} {n : TimedNote} {p : Planned}

/-- A note that is longer than a gap; so is every step of it if it has several. -/
structure Wide (gap interval : Rat) (n : TimedNote) : Prop where
  long : gap < n.length
  steps : 1 < n.eventCount interval → gap < interval

instance (gap interval : Rat) (n : TimedNote) : Decidable (n.Wide gap interval) :=
  decidable_of_iff (gap < n.length ∧ (1 < n.eventCount interval → gap < interval))
    ⟨fun h => ⟨h.1, h.2⟩, fun h => ⟨h.long, h.steps⟩⟩

variable (hgap : 0 ≤ gap) (hwide : n.Wide gap interval)
include hgap hwide

/-- The events of a wide note are as far apart as its steps. -/
theorem pairwise_planned :
    (n.planned interval).Pairwise fun p q => p.start + gap < q.start := by
  apply List.pairwise_map.mpr
  apply List.pairwise_lt_range.imp_of_mem
  intro i j _ hj hij
  have hstep := hwide.steps (by have := List.mem_range.mp hj; omega)
  have hnext : (i : Rat) + 1 ≤ j := by exact_mod_cast hij
  have hmul := mul_le_mul_of_nonneg_right hnext (hgap.trans hstep.le)
  dsimp only
  linarith

/-- The last event of a wide note is in front of its end by more than the gap. -/
theorem start_add_lt_of_mem (hp : p ∈ n.planned interval) : p.start + gap < n.start + n.length := by
  obtain ⟨i, hi, hstart⟩ := exists_of_mem_planned hp
  rw [hstart]
  rcases Nat.eq_zero_or_pos i with rfl | hpos
  · simpa using hwide.long
  · have hstep := hwide.steps (by omega)
    obtain ⟨_, hend⟩ := fits_of_lt_eventCount (lt_of_le_of_lt hgap hwide.long) hi hpos
    push_cast at hend
    linarith

end TimedNote

namespace Layout

open PlacedNote

variable {interval start gap : Rat} {bpm : Int} {measures : List Measure} {ns : List PlacedNote}

/-- Timed notes lie between the start and the end of all notes. -/
theorem mem_timedFrom (htime : ∀ n ∈ ns, 0 ≤ n.time bpm) {n : TimedNote}
    (hn : n ∈ timedFrom bpm start ns) :
    start ≤ n.start ∧ n.start + n.length ≤ start + totalTime bpm ns := by
  induction ns generalizing start with
  | nil => cases hn
  | cons m ms ih =>
    obtain ⟨hm, hms⟩ := List.forall_mem_cons.mp htime
    have hrest : 0 ≤ totalTime bpm ms := List.sum_nonneg (List.forall_mem_map.mpr hms)
    have htotal : totalTime bpm (m :: ms) = m.time bpm + totalTime bpm ms := List.sum_cons
    rw [timedFrom_cons] at hn
    rcases List.mem_append.mp hn with hfirst | hlater
    · split at hfirst
      · obtain rfl := List.mem_singleton.mp hfirst
        constructor <;> dsimp only <;> linarith
      · cases hfirst
    · obtain ⟨hstart, hend⟩ := ih hms hlater
      constructor <;> linarith

/-- A timed note starts when the ones before it have ended. -/
theorem pairwise_timedFrom (htime : ∀ n ∈ ns, 0 ≤ n.time bpm) :
    (timedFrom bpm start ns).Pairwise fun m n => m.start + m.length ≤ n.start := by
  induction ns generalizing start with
  | nil => exact List.Pairwise.nil
  | cons m ms ih =>
    obtain ⟨hm, hms⟩ := List.forall_mem_cons.mp htime
    rw [timedFrom_cons]
    apply List.pairwise_append.mpr
    refine ⟨?_, ih hms, ?_⟩
    · split
      · exact List.pairwise_singleton _ _
      · exact List.Pairwise.nil
    · intro a ha b hb
      split at ha
      · obtain rfl := List.mem_singleton.mp ha
        exact (mem_timedFrom hms hb).1
      · cases ha

theorem time_nonneg_of_mem_placed (hbpm : 0 < bpm) (hmeasures : ∀ m ∈ measures, m.Regular) :
    ∀ n ∈ Measure.placed measures, 0 ≤ n.time bpm := by
  intro n hn
  obtain ⟨m, hm, hplaced⟩ := List.mem_flatMap.mp hn
  obtain ⟨i, hi, rfl⟩ := List.mem_mapIdx.mp hplaced
  rw [time_eq]
  exact length_nonneg hbpm ((hmeasures m hm).forwards _ (List.getElem_mem hi))

/-- Where all notes are wide, the events of a part are further apart than the gap. -/
theorem pairwise_exactPlan (hbpm : 0 < bpm) (hmeasures : ∀ m ∈ measures, m.Regular)
    (hgap : 0 ≤ gap) (hwide : ∀ n ∈ timedNotes bpm measures, n.Wide gap interval) :
    (exactPlan bpm interval measures).Pairwise fun p q => p.start + gap < q.start := by
  have htime := time_nonneg_of_mem_placed hbpm hmeasures
  apply List.pairwise_append.mpr
  refine ⟨List.pairwise_flatMap.mpr ⟨?_, ?_⟩, List.pairwise_singleton _ _, ?_⟩
  · intro n hn
    exact TimedNote.pairwise_planned hgap (hwide n hn)
  · apply (pairwise_timedFrom htime).imp_of_mem
    intro m n hm hn hmn p hp q hq
    have hlength := lt_of_le_of_lt hgap (hwide n hn).long
    have hend := TimedNote.start_add_lt_of_mem hgap (hwide m hm) hp
    have hstart := ((TimedNote.keeps_of_pos hlength interval).start_mem q hq).1
    linarith
  · intro p hp q hq
    obtain ⟨n, hn, hpn⟩ := List.mem_flatMap.mp hp
    obtain rfl := List.mem_singleton.mp hq
    have hend := TimedNote.start_add_lt_of_mem hgap (hwide n hn) hpn
    have hlast := (mem_timedFrom htime hn).2
    rw [zero_add] at hlast
    exact lt_of_lt_of_le hend hlast

theorem start_mem_of_exactPlan (hbpm : 0 < bpm) (hmeasures : ∀ m ∈ measures, m.Regular)
    {p : Planned} (hp : p ∈ exactPlan bpm interval measures) :
    0 ≤ p.start ∧ p.start ≤ partLength bpm measures := by
  rw [← plan_eq_exactPlan hbpm hmeasures] at hp
  exact start_mem_of_plan interval hbpm hmeasures hp

section

variable {ps : List Planned} {events : List Event}
  (hall : List.Forall₂ (fun p e => emitPlanned p = .ok e) ps events)
  (hpos : ∀ p ∈ ps, 0 ≤ p.start)
include hall hpos

/-- Emitted one after another, events keep their order, strictly where rounding can see it. -/
theorem pairwise_zip_of_emit (hexact : ps.Pairwise fun p q => p.start < q.start) :
    (ps.zip events).Pairwise fun a b => a.2.start.le b.2.start = true ∧
      (a.1.start + resolution b.1.start < b.1.start → a.2.start.lt b.2.start = true) := by
  obtain ⟨hlen, hzip⟩ := List.forall₂_iff_zip.mp hall
  rw [← List.map_fst_zip hlen.le, List.pairwise_map] at hexact
  apply hexact.imp_of_mem
  rintro ⟨p, e⟩ ⟨q, f⟩ hpe hqf hlt
  have he := start_of_emitPlanned (hzip hpe)
  have hf := start_of_emitPlanned (hzip hqf)
  constructor
  · rw [Binary64.le_iff_rank (isFinite_of_emittedTime? he) (isFinite_of_emittedTime? hf)]
    exact rank_le_of_emittedTime? hlt.le he hf
  · intro hapart
    exact lt_of_resolution (hpos p (List.of_mem_zip hpe).1) hapart he hf

/-- Where rounding can see all exact times apart, it keeps them apart. -/
theorem pairwise_lt_of_emit
    (hapart : ps.Pairwise fun p q => p.start + resolution q.start < q.start) :
    events.Pairwise fun e f => e.start.lt f.start = true := by
  apply pairwise_of_forall₂ hall hapart
  intro p q e f hp he hf hlt
  exact lt_of_resolution (hpos p hp) hlt (start_of_emitPlanned he) (start_of_emitPlanned hf)

end

end Layout

namespace Pace

open Layout

variable {pace : Pace} {bpm : Int} {measures : List Measure}

/-- The order in which a part of finite length is emitted. The first event is at zero and none is
emitted earlier than one before it. An event is emitted strictly later where its exact time is
behind by more than rounding can see; so all times differ when every note and every step of an
ornament is longer than what rounding can see at the end of the part. -/
theorem events_ordered (htempo : pace.tempo = .whole bpm) (hbpm : 0 < bpm)
    (hmeasures : ∀ m ∈ measures, m.Regular)
    (hlength :
      (Binary64.ofRat? (PlacedNote.totalTime bpm (Measure.placed measures))).isSome = true) :
    ∃ events, pace.events measures = .ok events ∧
      List.Forall₂ Planned.RoundsTo (exactPlan bpm pace.interval measures) events ∧
      (∃ e, events.head? = some e ∧ e.start = .zero) ∧
      ((exactPlan bpm pace.interval measures).zip events).Pairwise (fun a b =>
        a.2.start.le b.2.start = true ∧
          (a.1.start + resolution b.1.start < b.1.start → a.2.start.lt b.2.start = true)) ∧
      ((∀ n ∈ timedNotes bpm measures,
          n.Wide (resolution (PlacedNote.totalTime bpm (Measure.placed measures))) pace.interval) →
        events.Pairwise fun e f => e.start.lt f.start = true) := by
  have hend := totalTime_placed bpm measures
  rw [hend] at hlength ⊢
  obtain ⟨events, hevents⟩ := exists_events_eq_ok htempo hbpm hmeasures hlength
  have hhead := (pinned_events htempo hbpm (fun m hm => (hmeasures m hm).forwards) hevents).head
  have hall := hevents
  rw [events_eq htempo (mul_ne_zero_of_regular hbpm hmeasures), mapM_eq_ok_iff,
    plan_eq_exactPlan hbpm hmeasures] at hall
  have hwithin : ∀ p ∈ exactPlan bpm pace.interval measures,
      0 ≤ p.start ∧ p.start ≤ partLength bpm measures :=
    fun p hp => start_mem_of_exactPlan hbpm hmeasures hp
  have hpos : ∀ p ∈ exactPlan bpm pace.interval measures, 0 ≤ p.start :=
    fun p hp => (hwithin p hp).1
  refine ⟨events, hevents, hall.imp fun _ _ => roundsTo_of_emitPlanned, hhead, ?_, ?_⟩
  · have hfill := fills_plan pace.interval hbpm (fun m hm => (hmeasures m hm).forwards)
      (lt_add_one _)
    rw [plan_eq_exactPlan hbpm hmeasures] at hfill
    exact pairwise_zip_of_emit hall hpos hfill.pairwise
  · intro hwide
    have htotal := hpos (timedPin bpm measures) (List.mem_append_right _ (by simp))
    rw [timedPin, hend] at htotal
    have hgap := pairwise_exactPlan hbpm hmeasures (resolution_nonneg htotal) hwide
    apply pairwise_lt_of_emit hall hpos
    apply hgap.imp_of_mem
    intro p q _ hq hlt
    have := resolution_mono (hwithin q hq).2
    linarith

/-- Every note and step of the ornamented part is wide enough. -/
theorem events_ordered_ornamented : (⟨.whole 60, 300⟩ : Pace).tempo = .whole 60 ∧ (0 : Int) < 60 ∧
    (∀ m ∈ ornamented, m.Regular) ∧
    (Binary64.ofRat? (PlacedNote.totalTime 60 (Measure.placed ornamented))).isSome = true ∧
    ∃ events, (⟨.whole 60, 300⟩ : Pace).events ornamented = .ok events ∧
      events.Pairwise fun e f => e.start.lt f.start = true := by
  have htempo : (⟨.whole 60, 300⟩ : Pace).tempo = .whole 60 := rfl
  have hmeasures : ∀ m ∈ ornamented, m.Regular := by decide +kernel
  have hlength : (Binary64.ofRat?
      (PlacedNote.totalTime 60 (Measure.placed ornamented))).isSome = true := by decide +kernel
  obtain ⟨events, hevents, _, _, _, hstrict⟩ :=
    events_ordered htempo (by decide) hmeasures hlength
  exact ⟨htempo, by decide, hmeasures, hlength, events, hevents, hstrict (by decide +kernel)⟩

/-- Two notes of a ten-thousandth of a millisecond each. -/
def hurried : List Measure := [⟨1, ⟨4, 4⟩, 10000000, [⟨.actuate .mf, 1⟩, ⟨.rest .mf, 1⟩]⟩]

/-- All events of the hurried part are emitted at zero. -/
theorem events_collide : (ofValues (.int 60) (.float (.ofNat 20))).toOption = some ⟨.whole 60, 20⟩ ∧
    (∀ m ∈ hurried, m.Regular) ∧
    (Binary64.ofRat? (PlacedNote.totalTime 60 (Measure.placed hurried))).isSome = true ∧
    (⟨.whole 60, 20⟩ : Pace).events hurried = .ok [⟨.zero, .inflate, .mf, 1, some 0⟩,
      ⟨.zero, .release, .mf, 1, some 1⟩, ⟨.zero, .noChange, .mf, 1, none⟩] := by
  exact ⟨by decide +kernel, by decide +kernel, by decide +kernel, by decide +kernel⟩

end Pace

end Bellows
