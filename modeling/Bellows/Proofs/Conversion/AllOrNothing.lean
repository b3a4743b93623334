import Bellows.Proofs.Conversion.ConflictReport
import Bellows.Proofs.Event.Extent

/-! All or nothing: a conversion gives a schedule of all roles, or one fault for each role that
fails and none for the others. -/
namespace Bellows

/-- A score whose parts all end at a finite time. -/
def Score.Fits (score : Score) (bpm : Int) : Prop :=
  ∀ e ∈ score.entries, (Binary64.ofRat? (Layout.partLength bpm e.2.measures)).isSome = true

instance (score : Score) (bpm : Int) : Decidable (score.Fits bpm) := by
  unfold Score.Fits
  infer_instance

/-- A role that contradicts itself somewhere on an axis. -/
def RoleTimelines.Conflicting (t : RoleTimelines) (curve : Curve) (ticks : List Binary64) : Prop :=
  ∃ c, t.merge curve ticks = .error c

instance (t : RoleTimelines) (curve : Curve) (ticks : List Binary64) :
    Decidable (t.Conflicting curve ticks) :=
  match h : t.merge curve ticks with
  | .error c => isTrue ⟨c, h⟩
  | .ok _ => isFalse fun ⟨_, hc⟩ => nomatch h.symm.trans hc

namespace Role

variable {settings : Settings} {pace : Pace} {score : Score} {r : Role}
  (hscore : score.Regular) (hpace : settings.pace = .ok pace) (hfits : score.Fits settings.bpm)
include hscore hpace hfits

/-- Any part can be laid out, also one that the score lacks. -/
theorem exists_events (part : String) :
    ∃ events, pace.events (measuresOf score part) = .ok events := by
  refine Pace.exists_events_eq_ok (Settings.tempo_of_pace hpace) settings.bpm_pos
    (fun _ hm => regular_measuresOf hscore part hm) ?_
  cases hget : score.get? part with
  | none =>
    have hnil : measuresOf score part = [] := by
      rw [measuresOf, hget]
      rfl
    have hzero : Layout.partLength settings.bpm [] = 0 := rfl
    rw [hnil, hzero]
    decide +kernel
  | some p =>
    have hmeasures : measuresOf score part = p.measures := by
      rw [measuresOf, hget]
      rfl
    rw [hmeasures]
    exact hfits (part, p) ((score.get?_eq_some_iff part p).mp hget)

/-- A role has timelines, or a fault of its own. -/
theorem timelines_cases (r : Role) : (∃ t, r.timelines pace score = .ok t) ∨
    ∃ fault, r.timelines pace score = .error (.mapping fault) := by
  cases hf : r.fault? score with
  | some fault => exact Or.inr ⟨fault, by rw [timelines, hf]⟩
  | none =>
    obtain ⟨ports, hports⟩ : ∃ ports, r.byPort.mapM (portTimeline pace score) = .ok ports := by
      refine exists_mapM_eq_ok fun m _ => ?_
      obtain ⟨events, hevents⟩ := exists_events hscore hpace hfits m.part
      exact ⟨⟨m.port, m.part, events⟩, portTimeline_of_drives ⟨rfl, rfl, hevents⟩⟩
    exact Or.inl ⟨⟨r.name, ports⟩, by rw [timelines, hf, hports]⟩

end Role

namespace Conversion

variable {settings : Settings} {pace : Pace} {tolerance : Binary64} {score : Score}
  {roles : List Role} {s : Survey} {curve : Curve} {ticks : List Binary64}
  {ts : List RoleTimelines} {unplayable : List MappingFault} {conflicts : List Conflict}

/-- Where parts can be laid out, a survey comes to its end. -/
theorem exists_survey (hscore : score.Regular) (hpace : settings.pace = .ok pace)
    (hfits : score.Fits settings.bpm) (roles : List Role) :
    ∃ s, survey pace score roles = .ok s := by
  induction roles with
  | nil => exact ⟨⟨[], []⟩, rfl⟩
  | cons r rs ih =>
    obtain ⟨rest, hrest⟩ := ih
    rcases Role.timelines_cases hscore hpace hfits r with ⟨t, ht⟩ | ⟨fault, hfault⟩
    · exact ⟨{ rest with playable := t :: rest.playable }, by rw [survey, ht, hrest]; rfl⟩
    · exact ⟨{ rest with unplayable := fault :: rest.unplayable },
        by rw [survey, hfault, hrest]; rfl⟩

/-- The conflicts of some roles are those of the conflicting ones, in their order. -/
theorem forall₂_conflicts (curve : Curve) (ticks : List Binary64) (ts : List RoleTimelines) :
    List.Forall₂ (fun t c => t.merge curve ticks = .error c)
      (ts.filter fun t => t.Conflicting curve ticks)
      (Conversion.conflicts (mergeAll curve ticks ts)) := by
  induction ts with
  | nil => exact .nil
  | cons t ts ih =>
    unfold Conversion.conflicts mergeAll at ih ⊢
    rw [List.map_cons]
    cases hm : t.merge curve ticks with
    | error c =>
      have hconf : t.Conflicting curve ticks := ⟨c, hm⟩
      rw [List.filter_cons_of_pos (by simpa using hconf)]
      exact .cons hm ih
    | ok commands =>
      have hfree : ¬ t.Conflicting curve ticks := fun ⟨_, hc⟩ => nomatch hm.symm.trans hc
      rw [List.filter_cons_of_neg (by simpa using hfree)]
      exact ih

/-- One fault for each unplayable role and one conflict for each conflicting one, in the order of
the roles, and each under the name of its role. -/
structure Complaints (settings : Settings) (tolerance : Binary64) (score : Score)
    (ts : List RoleTimelines) (unplayable : List MappingFault) (conflicts : List Conflict) :
    Prop where
  unplayable : List.Forall₂ (fun r f => r.fault? score = some f ∧ f.role? = some r.name)
    (settings.roles.filter fun r => ¬ r.Playable score) unplayable
  conflicts : List.Forall₂
    (fun t c => t.merge settings.curve (axis tolerance ts) = .error c ∧ c.role = t.role)
    (ts.filter fun t => t.Conflicting settings.curve (axis tolerance ts)) conflicts

/-- A list of errors in its order: one for each unplayable role, and then one for each conflicting
role, in the order of the roles. -/
structure Listed (settings : Settings) (tolerance : Binary64) (score : Score)
    (ts : List RoleTimelines) (first second : List RoleFault) : Prop where
  first : List.Forall₂
    (fun r e => ∃ f, e = .mapping f ∧ r.fault? score = some f ∧ f.role? = some r.name)
    (settings.roles.filter fun r => ¬ r.Playable score) first
  second : List.Forall₂
    (fun t e => ∃ c, e = .conflict c ∧
      t.merge settings.curve (axis tolerance ts) = .error c ∧ c.role = t.role)
    (ts.filter fun t => t.Conflicting settings.curve (axis tolerance ts)) second

/-- Whether some role cannot be played, or contradicts itself on the axis of those that can. -/
def Fails (settings : Settings) (tolerance : Binary64) (score : Score) (ts : List RoleTimelines) :
    Prop :=
  (∃ r ∈ settings.roles, ¬ r.Playable score) ∨
    ∃ t ∈ ts, t.Conflicting settings.curve (axis tolerance ts)

/-- A conversion is decided by the roles one by one. -/
structure Decided (settings : Settings) (pace : Pace) (tolerance : Binary64) (score : Score)
    (ts : List RoleTimelines) : Prop where
  timelines : List.Forall₂ (fun r t => r.timelines pace score = .ok t)
    (settings.roles.filter fun r => r.Playable score) ts
  fails_iff : (∃ unplayable conflicts, settings.convert pace tolerance score =
    .error (.roles unplayable conflicts)) ↔ Fails settings tolerance score ts
  complaints : ∀ unplayable conflicts, settings.convert pace tolerance score =
    .error (.roles unplayable conflicts) →
      Complaints settings tolerance score ts unplayable conflicts
  errors : ∀ fault, settings.convert pace tolerance score = .error fault → ∃ first second,
    fault.errors = first ++ second ∧ Listed settings tolerance score ts first second
  succeeds : ¬ Fails settings tolerance score ts → ∃ schedule,
    settings.convert pace tolerance score = .ok schedule ∧
      schedule.roles = settings.roles.map Role.name

/-- The role of a conflict is the role that was merged. -/
theorem role_of_merge {t : RoleTimelines} {c : Conflict} (h : Axis.Ascending ticks)
    (hm : t.merge curve ticks = .error c) : c.role = t.role := by
  obtain ⟨_, _, _, _, _, rfl⟩ := t.conflict_of_merge h hm
  rfl

/-- What a survey of all roles complains about. -/
theorem complaints_of_surveyed (h : Surveyed pace score settings.roles s) (tolerance : Binary64) :
    Complaints settings tolerance score s.playable s.unplayable
      (Conversion.conflicts (mergeAll settings.curve (axis tolerance s.playable) s.playable)) := by
  refine ⟨h.unplayable.imp fun r f hf => ⟨hf, Role.role?_of_fault? hf⟩, ?_⟩
  exact (forall₂_conflicts settings.curve (axis tolerance s.playable) s.playable).imp
    fun t c hc => ⟨hc, role_of_merge (ascending_axis tolerance s.playable) hc⟩

/-- There is something to complain about exactly when a role fails. -/
theorem Complaints.nil_iff (h : Complaints settings tolerance score ts unplayable conflicts) :
    unplayable = [] ∧ conflicts = [] ↔ ¬ Fails settings tolerance score ts := by
  have hun : unplayable = [] ↔ ∀ r ∈ settings.roles, r.Playable score := by
    rw [← List.length_eq_zero_iff, ← h.unplayable.length_eq, List.length_eq_zero_iff,
      List.filter_eq_nil_iff]
    simp
  have hcon : conflicts = [] ↔
      ∀ t ∈ ts, ¬ t.Conflicting settings.curve (axis tolerance ts) := by
    rw [← List.length_eq_zero_iff, ← h.conflicts.length_eq, List.length_eq_zero_iff,
      List.filter_eq_nil_iff]
    simp
  rw [hun, hcon, Fails, not_or, not_exists, not_exists]
  simp only [not_and, not_not]

/-- The complaints are listed one after the other. -/
theorem Complaints.listed (h : Complaints settings tolerance score ts unplayable conflicts) :
    Listed settings tolerance score ts (unplayable.map .mapping) (conflicts.map .conflict) := by
  constructor
  · exact List.forall₂_map_right_iff.mpr (h.unplayable.imp fun _ f hf => ⟨f, rfl, hf⟩)
  · exact List.forall₂_map_right_iff.mpr (h.conflicts.imp fun _ c hc => ⟨c, rfl, hc⟩)

end Conversion

namespace Settings

variable {settings : Settings} {pace : Pace} {score : Score}

/-- A conversion of settings with at least one assignment fails exactly when a role does. It then
lists every role that fails, once and in order, and otherwise gives a schedule of all roles. -/
theorem convert_all_or_nothing (hscore : score.Regular) (hfits : score.Fits settings.bpm)
    (hpace : settings.pace = .ok pace) (hassigned : settings.assignments.entries ≠ [])
    (tolerance : Binary64) : ∃ ts, Conversion.Decided settings pace tolerance score ts := by
  have hne := roles_ne_nil hassigned
  obtain ⟨s, hs⟩ := Conversion.exists_survey hscore hpace hfits settings.roles
  have hsurveyed := Conversion.surveyed_of_survey hs
  have hcomplaints := Conversion.complaints_of_surveyed hsurveyed tolerance
  have hconvert : settings.convert pace tolerance score =
      Conversion.ofSurvey settings.curve tolerance s := by
    obtain ⟨fault, hfault, _⟩ | ⟨s', hs', hof⟩ :=
      @convert_of_ne_nil settings pace tolerance score hne
    · cases hs.symm.trans hfault
    · cases hs.symm.trans hs'
      exact hof
  by_cases hfails : Conversion.Fails settings tolerance score s.playable
  · have herror := Conversion.ofSurvey_of_complaint (mt hcomplaints.nil_iff.mp (not_not.mpr hfails))
    rw [← hconvert] at herror
    refine ⟨s.playable, hsurveyed.playable, iff_of_true ⟨_, _, herror⟩ hfails, ?_, ?_, ?_⟩
    · intro unplayable conflicts h
      cases herror.symm.trans h
      exact hcomplaints
    · intro fault h
      cases herror.symm.trans h
      exact ⟨_, _, rfl, hcomplaints.listed⟩
    · intro hnot
      exact (hnot hfails).elim
  · obtain ⟨hun, hcon⟩ := hcomplaints.nil_iff.mpr hfails
    obtain ⟨schedule, hok, hcompiled⟩ := Conversion.ofSurvey_of_nil tolerance hne hs hun hcon
    rw [← hconvert] at hok
    refine ⟨s.playable, hsurveyed.playable, iff_of_false ?_ hfails, ?_, ?_, ?_⟩
    · rintro ⟨_, _, herror⟩
      cases hok.symm.trans herror
    · intro _ _ herror
      cases hok.symm.trans herror
    · intro _ herror
      cases hok.symm.trans herror
    · intro _
      exact ⟨schedule, hok, hcompiled.roles_eq⟩

open Conversion in
/-- In the clash one role lacks its part and the other one contradicts itself; each is listed. -/
theorem convert_all_or_nothing_clash : Clash.score.Regular ∧
    Clash.score.Fits Clash.settings.bpm ∧ Clash.settings.pace = .ok Clash.pace ∧
    Clash.settings.assignments.entries ≠ [] ∧
    ∃ ts, Complaints Clash.settings (.ofNat 1) Clash.score ts [Clash.lost] [Clash.conflict] := by
  have hfits : Clash.score.Fits Clash.settings.bpm := by decide +kernel
  have hassigned : Clash.settings.assignments.entries ≠ [] := by decide +kernel
  obtain ⟨ts, hdecided⟩ :=
    convert_all_or_nothing Clash.regular hfits Clash.pace_eq hassigned (.ofNat 1)
  exact ⟨Clash.regular, hfits, Clash.pace_eq, hassigned, ts,
    hdecided.complaints _ _ Clash.convert_eq⟩

end Settings
end Bellows
