import Bellows.Proofs.Binary64.Overflow
import Bellows.Proofs.Conversion.AllOrNothing
import Bellows.Proofs.Conversion.Correspondence

/-! Parts without a finite end: exactly when a part of a playable role lasts longer than any finite
number of milliseconds, nothing is converted, and not even the other roles are reported. -/
namespace Bellows

namespace Layout

variable {q : Rat} {bpm : Int} {measures : List Measure}

/-- A time of at least zero rounds to a finite number exactly below the overflow. -/
theorem nearestGrains_lt_iff (hq : 0 ≤ q) :
    nearestGrains q < Binary64.ceiling ↔ q < (Binary64.overflow : Rat) := by
  rw [nearestGrains, Binary64.nearest_lt_ceiling_iff q.den_pos]
  generalize Binary64.overflow = k
  have hnum := Rat.num_nonneg.mpr hq
  rw [Rat.lt_iff, Rat.num_natCast, Rat.den_natCast, Nat.cast_one, mul_one]
  generalize q.num = i at hnum ⊢
  constructor
  · intro hlt
    rw [← Int.natAbs_of_nonneg hnum]
    exact_mod_cast hlt
  · intro hlt
    rw [← Int.natAbs_of_nonneg hnum] at hlt
    exact_mod_cast hlt

theorem emittedTime?_eq_none_iff (hq : 0 ≤ q) :
    emittedTime? q = none ↔ (Binary64.overflow : Rat) ≤ q := by
  rw [← not_lt, ← nearestGrains_lt_iff hq, not_lt, emittedTime?, Option.map_eq_none_iff]
  refine ⟨fun hnone => Nat.le_of_not_lt fun hlt => ?_, ofRat?_of_ge⟩
  obtain ⟨_, hsome⟩ := ofRat?_of_lt hlt
  cases hnone.symm.trans hsome

end Layout

/-- A part of a regular score that lasts too long for its end to be a finite number. -/
def Score.Endless (score : Score) (bpm : Int) (part : String) : Prop :=
  (Binary64.overflow : Rat) ≤ Layout.partLength bpm (Role.measuresOf score part)

namespace Pace

variable {pace : Pace} {bpm : Int} {measures : List Measure} {fault : LayoutFault}

/-- What keeps a part from being laid out is its length. -/
theorem exists_events_eq_error_iff (htempo : pace.tempo = .whole bpm) (hbpm : 0 < bpm)
    (hmeasures : ∀ m ∈ measures, m.Regular) : (∃ fault, pace.events measures = .error fault) ↔
      (Binary64.overflow : Rat) ≤ Layout.partLength bpm measures := by
  have hplan := fun p hp =>
    @Layout.start_mem_of_plan bpm measures pace.interval hbpm hmeasures p hp
  rw [events_eq htempo (mul_ne_zero_of_regular hbpm hmeasures)]
  constructor
  · rintro ⟨fault, hfault⟩
    obtain ⟨p, hp, hemit⟩ := exists_of_mapM_eq_error hfault
    obtain ⟨hpos, hend⟩ := hplan p hp
    refine le_trans ((Layout.emittedTime?_eq_none_iff hpos).mp ?_) hend
    rw [Layout.emitPlanned, Layout.emit] at hemit
    cases htime : Layout.emittedTime? p.start with
    | none => rfl
    | some t =>
      rw [htime] at hemit
      cases hemit
  · intro hlong
    have hpin : Layout.plannedPin bpm measures ∈ Layout.plan bpm pace.interval measures :=
      List.mem_append_right _ (List.mem_singleton_self _)
    have hstart : (Layout.plannedPin bpm measures).start = Layout.partLength bpm measures :=
      Layout.position_finalCursor bpm measures
    have hnone := (Layout.emittedTime?_eq_none_iff (hplan _ hpin).1).mpr (hstart ▸ hlong)
    cases hall : (Layout.plan bpm pace.interval measures).mapM Layout.emitPlanned with
    | error fault => exact ⟨fault, rfl⟩
    | ok events =>
      obtain ⟨e, _, he⟩ := exists_right_of_mem (mapM_eq_ok_iff.mp hall) hpin
      obtain ⟨t, ht, _⟩ := Layout.emitPlanned_eq_ok.mp he
      cases hnone.symm.trans ht

end Pace

namespace Settings

variable {settings : Settings} {pace : Pace} {tolerance : Binary64} {score : Score}
  (hscore : score.Regular) (hpace : settings.pace = .ok pace)
include hscore hpace

theorem exists_events_eq_error_iff (part : String) :
    (∃ fault, pace.events (Role.measuresOf score part) = .error fault) ↔
      score.Endless settings.bpm part :=
  Pace.exists_events_eq_error_iff (tempo_of_pace hpace) settings.bpm_pos
    fun _ hm => Role.regular_measuresOf hscore part hm

/-- The timelines of a role end with a fault of the layout exactly if the role is in order and one
of its parts has no finite end. -/
theorem exists_timelines_eq_layout_iff {r : Role} :
    (∃ fault, r.timelines pace score = .error (.layout fault)) ↔
      r.Playable score ∧ ∃ m ∈ r.members, score.Endless settings.bpm m.part := by
  constructor
  · rintro ⟨fault, h⟩
    obtain ⟨m, hm, hevents⟩ := Role.exists_of_timelines_eq_layout h
    exact ⟨Role.playable_of_timelines_eq_layout h, m, hm,
      (exists_events_eq_error_iff hscore hpace m.part).mp ⟨fault, hevents⟩⟩
  · rintro ⟨hplay, m, hm, hlong⟩
    obtain ⟨fault, hevents⟩ := (exists_events_eq_error_iff hscore hpace m.part).mpr hlong
    cases h : r.timelines pace score with
    | ok t =>
      obtain ⟨p, _, hdrives⟩ := exists_right_of_mem (Role.timelines_eq_ok h).2.2
        (List.mem_mergeSort.mpr hm)
      cases hevents.symm.trans hdrives.events
    | error f =>
      cases f with
      | layout f => exact ⟨f, rfl⟩
      | mapping f =>
        cases (Role.fault?_eq_none_iff.mpr hplay).symm.trans (Role.fault?_of_timelines h)

/-- A conversion ends with a fault of the layout exactly if a role that is in order has a part
without a finite end; and then the fault says so. -/
theorem convert_eq_layout_iff {fault : LayoutFault} :
    settings.convert pace tolerance score = .error (.layout fault) ↔ fault = .tooLong ∧
      ∃ r ∈ settings.roles, r.Playable score ∧
        ∃ m ∈ r.members, score.Endless settings.bpm m.part := by
  have htooLong : ∀ fault, settings.convert pace tolerance score = .error (.layout fault) →
      fault = .tooLong := fun _ =>
    layout_eq_tooLong hpace fun part _ _ hm =>
      Int.ne_of_gt (Role.regular_measuresOf hscore part hm).divisions_pos
  constructor
  · intro h
    obtain ⟨r, hr, hrt⟩ := exists_of_convert_eq_layout h
    exact ⟨htooLong fault h, r, hr, (exists_timelines_eq_layout_iff hscore hpace).mp ⟨fault, hrt⟩⟩
  · rintro ⟨rfl, r, hr, hlong⟩
    obtain ⟨f, hrt⟩ := (exists_timelines_eq_layout_iff hscore hpace).mpr hlong
    obtain ⟨g, hg⟩ := exists_convert_eq_layout tolerance hr hrt
    rwa [htooLong g hg] at hg

end Settings
end Bellows
