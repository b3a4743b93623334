import Bellows.Proofs.Command.Report
import Bellows.Proofs.Conversion.Outcome
import Bellows.Proofs.Event.Provenance
import Bellows.Proofs.Role.Assignments

/-! The conflicts that a conversion reports: each is found at a tick of the common axis, and points
at notes of the parts that are assigned to its ports. -/
namespace Bellows

/-- A site points at a note of the one part that is assigned to its port. Only a part whose name is
empty does not show under its name. -/
structure ConflictSite.PointsAt (s : ConflictSite) (settings : Settings) (score : Score)
    (role part : String) : Prop where
  assigned : ∀ other, settings.AssignsPart role s.port other ↔ other = part
  named : part ≠ "" → s.part = part
  unnamed : part = "" → s.part = "-"
  note : Measure.Asks (Role.measuresOf score part) s.measure s.note s.action

/-- What a reported conflict says about the role, the time and the notes that it came from. -/
structure Conflict.Found (c : Conflict) (settings : Settings) (score : Score)
    (ticks : List Binary64) : Prop where
  role : c.role ∈ settings.roles.map Role.name
  time : c.time ∈ ticks
  ports : c.ports.Pairwise (· < ·)
  two_le : 2 ≤ c.sites.length
  site : ∀ s ∈ c.sites, ∃ part, s.PointsAt settings score c.role part
  opposed : ∃ a b, Action.Opposed a b ∧ (∀ s ∈ c.sites, s.action = a ∨ s.action = b) ∧
    (∃ s ∈ c.sites, s.action = a) ∧ ∃ s ∈ c.sites, s.action = b

theorem Resolution.partLabel_of_ne {part : String} (h : part ≠ "") :
    partLabel (some part) = part := by
  have : ¬ part.isEmpty = true := fun he => h (String.isEmpty_iff.mp he)
  exact if_neg this

namespace Conversion

variable {settings : Settings} {pace : Pace} {score : Score} {r : Role}
  {t : RoleTimelines} {ticks : List Binary64} {curve : Curve} {c : Conflict} {k : Nat}
  {tick : Binary64} {request : Request}

section

variable (hscore : score.Regular) (hpace : settings.pace = .ok pace) (hr : r ∈ settings.roles)
  (hrt : r.timelines pace score = .ok t)
include hscore hpace hr hrt

/-- A port that asks for something points at a note of its part. -/
theorem pointsAt_of_request (hrequest : request ∈ t.requestsAt ticks k tick)
    (hact : request.action ≠ .noChange) :
    ∃ part, (Resolution.site request).PointsAt settings score t.role part := by
  obtain ⟨p, hp, hport, hpart, e, he, hevent⟩ :=
    t.exists_event_of_request (Role.nodup_ports hrt) hrequest hact
  obtain ⟨m, hm, hd⟩ := Role.exists_member hrt hp
  have hassigns : settings.AssignsPart r.name request.port m.part := by
    rw [hport, hd.port]
    exact Settings.exists_assignment hr hm
  have hlabel : (Resolution.site request).part = Resolution.partLabel (some m.part) := by
    rw [← hd.part, ← hpart]
    rfl
  have haction : request.action = e.action := by
    rw [Request.action, hevent]
    rfl
  have hnote := Pace.asks_of_mem_events (Settings.tempo_of_pace hpace) settings.bpm_pos
    (fun _ hmem => Role.regular_measuresOf hscore m.part hmem) hd.events he (haction ▸ hact)
  refine ⟨m.part, ?_, ?_, ?_, ?_⟩
  · intro other
    rw [(Role.timelines_eq_ok hrt).2.1]
    constructor
    · intro hother
      exact Settings.eq_of_assignsPart hr (Role.playable_of_timelines hrt) hother hassigns
    · rintro rfl
      exact hassigns
  · intro hne
    rw [hlabel, Resolution.partLabel_of_ne hne]
  · intro hempty
    rw [hlabel, hempty]
    rfl
  · rw [← haction] at hnote
    simp only [Resolution.site, hevent, Event.at]
    exact hnote

/-- The conflict of a role that was merged onto an axis. -/
theorem found_of_merge (hticks : Axis.Ascending ticks) (hm : t.merge curve ticks = .error c) :
    c.Found settings score ticks := by
  obtain ⟨k, tick, pair, htick, hsettle, rfl⟩ := t.conflict_of_merge hticks hm
  obtain ⟨hopposed, hleft, hright⟩ := Resolution.opposed_of_settle hsettle
  refine ⟨?_, List.mem_of_getElem? htick, RoleTimelines.ports_ascending ticks k tick pair,
    Resolution.two_le_length_sites hsettle, ?_, pair.1, pair.2, hopposed, ?_,
    Resolution.exists_site hleft (Or.inl rfl), Resolution.exists_site hright (Or.inr rfl)⟩
  · exact (Role.timelines_eq_ok hrt).2.1 ▸ List.mem_map_of_mem hr
  · intro s hs
    obtain ⟨request, hrequest, hside, rfl⟩ := Resolution.mem_sites.mp hs
    refine pointsAt_of_request hscore hpace hr hrt hrequest ?_
    rcases hside with hside | hside
    · exact hside ▸ hopposed.ne_noChange.1
    · exact hside ▸ hopposed.ne_noChange.2
  · intro s hs
    obtain ⟨request, _, hside, rfl⟩ := Resolution.mem_sites.mp hs
    exact hside

end

theorem mem_conflicts {ts : List RoleTimelines} :
    c ∈ conflicts (mergeAll curve ticks ts) ↔ ∃ t ∈ ts, t.merge curve ticks = .error c := by
  unfold conflicts mergeAll
  rw [List.mem_filterMap]
  constructor
  · rintro ⟨entry, hentry, hc⟩
    obtain ⟨t, ht, rfl⟩ := List.mem_map.mp hentry
    refine ⟨t, ht, ?_⟩
    cases hm : t.merge curve ticks with
    | ok commands =>
      rw [hm] at hc
      cases hc
    | error other =>
      rw [hm] at hc
      cases hc
      rfl
  · rintro ⟨t, ht, hm⟩
    exact ⟨_, List.mem_map_of_mem ht, by rw [hm]⟩

end Conversion

namespace Conversion.Clash

open Sample

/-- A part without a name pumps air in while another one lets it out. -/
def score : Score := Keyed.ofList [
  ("", ⟨"Low", [⟨1, ⟨2, 4⟩, 1, [⟨.actuate .mf, 2⟩]⟩]⟩),
  ("P2", ⟨"High", [⟨1, ⟨2, 4⟩, 1, [⟨.rest .mf, 2⟩]⟩]⟩)]

theorem lost_ne_empty : "Lost" ≠ "" := by decide

/-- Both parts play one role; another role is given to a part that does not exist. -/
def settings : Settings := ⟨60, Keyed.ofList [("P9", ⟨"Lost", 1, lost_ne_empty, first_mem⟩),
  ("", ⟨"Lungs", 1, lungs_ne_empty, first_mem⟩), ("P2", ⟨"Lungs", 2, lungs_ne_empty, second_mem⟩)],
  default, .int 500, bpm_pos⟩

def pace : Pace := ⟨.whole 60, 500⟩

def low : List Event :=
  [⟨.ofNat 0, .inflate, .mf, 1, some 0⟩, ⟨.ofNat 2000, .noChange, .mf, 1, none⟩]

def high : List Event :=
  [⟨.ofNat 0, .release, .mf, 1, some 0⟩, ⟨.ofNat 2000, .noChange, .mf, 1, none⟩]

def timelines : RoleTimelines := ⟨"Lungs", [⟨1, "", low⟩, ⟨2, "P2", high⟩]⟩

def lost : MappingFault := .missingParts "Lost" ["P9"]

def conflict : Conflict :=
  ⟨"Lungs", .ofNat 0, [⟨1, "-", 1, some 0, .inflate⟩, ⟨2, "P2", 1, some 0, .release⟩]⟩

theorem pace_eq : settings.pace = .ok pace :=
  Settings.pace_eq_ok rfl (by decide) (by decide +kernel)

theorem regular : score.Regular := by decide +kernel

theorem roles_eq : settings.roles = [⟨"Lost", [⟨"P9", 1⟩]⟩, ⟨"Lungs", [⟨"", 1⟩, ⟨"P2", 2⟩]⟩] := by
  decide +kernel

theorem timelines_eq :
    Role.timelines ⟨"Lungs", [⟨"", 1⟩, ⟨"P2", 2⟩]⟩ pace score = .ok timelines := by
  have hlow : pace.events (Role.measuresOf score "") = .ok low := by decide +kernel
  have hhigh : pace.events (Role.measuresOf score "P2") = .ok high := by decide +kernel
  exact Role.timelines_of_sorted (by decide +kernel) (by decide)
    (.cons ⟨rfl, rfl, hlow⟩ (.cons ⟨rfl, rfl, hhigh⟩ .nil))

theorem axis_eq : axis (.ofNat 1) [timelines] = [.ofNat 0, .ofNat 2000] :=
  axis_of_perm [.ofNat 0, .ofNat 0, .ofNat 2000, .ofNat 2000] (by decide +kernel)
    (by decide +kernel) (by decide +kernel) (by decide +kernel)

theorem merge_eq : timelines.merge settings.curve [.ofNat 0, .ofNat 2000] = .error conflict := by
  decide +kernel

theorem convert_eq :
    settings.convert pace (.ofNat 1) score = .error (.roles [lost] [conflict]) := by
  have hlost : Role.timelines ⟨"Lost", [⟨"P9", 1⟩]⟩ pace score = .error (.mapping lost) := by
    have hfault : Role.fault? ⟨"Lost", [⟨"P9", 1⟩]⟩ score = some lost := by decide +kernel
    rw [Role.timelines, hfault]
  have hsurvey : survey pace score settings.roles = .ok ⟨[timelines], [lost]⟩ := by
    rw [roles_eq, survey, hlost, survey, timelines_eq]
    rfl
  have hmerged : mergeAll settings.curve [.ofNat 0, .ofNat 2000] [timelines] =
      [("Lungs", .error conflict)] := congrArg (fun merged => [("Lungs", merged)]) merge_eq
  rw [Settings.convert, hsurvey, roles_eq]
  simp only [ofSurvey, axis_eq, hmerged]
  rfl

end Conversion.Clash

namespace Settings

variable {settings : Settings} {pace : Pace} {tolerance : Binary64} {score : Score}
  {unplayable : List MappingFault} {conflicts : List Conflict} {c : Conflict}

/-- A conversion lists what a survey found and what the axis of the playable roles brought up. -/
theorem exists_survey_of_convert
    (h : settings.convert pace tolerance score = .error (.roles unplayable conflicts)) :
    ∃ s, Conversion.Surveyed pace score settings.roles s ∧ unplayable = s.unplayable ∧
      conflicts = Conversion.conflicts (Conversion.mergeAll settings.curve
        (Conversion.axis tolerance s.playable) s.playable) := by
  by_cases hnil : settings.roles = []
  · rw [convert_of_nil hnil] at h
    cases h
  obtain ⟨_, _, hlayout⟩ | ⟨s, hs, hof⟩ := @convert_of_ne_nil settings pace tolerance score hnil
  · rw [hlayout] at h
    cases h
  obtain ⟨_, hok, _⟩ | herror := Conversion.ofSurvey_cases tolerance hnil hs
  · rw [hof, hok] at h
    cases h
  · rw [hof, herror] at h
    cases h
    exact ⟨s, Conversion.surveyed_of_survey hs, rfl, rfl⟩

/-- Every conflict that a conversion reports is found at a tick of the axis of the playable
roles. -/
theorem convert_reports_conflicts (hscore : score.Regular) (hpace : settings.pace = .ok pace)
    (h : settings.convert pace tolerance score = .error (.roles unplayable conflicts)) :
    ∃ ts, List.Forall₂ (fun r t => r.timelines pace score = .ok t)
        (settings.roles.filter fun r => r.Playable score) ts ∧
      ∀ c ∈ conflicts, c.Found settings score (Conversion.axis tolerance ts) := by
  obtain ⟨s, hs, _, rfl⟩ := exists_survey_of_convert h
  refine ⟨s.playable, hs.playable, fun c hc => ?_⟩
  obtain ⟨t, ht, hm⟩ := Conversion.mem_conflicts.mp hc
  obtain ⟨r, hr, hrt⟩ := exists_left_of_mem hs.playable ht
  exact Conversion.found_of_merge hscore hpace (List.mem_of_mem_filter hr) hrt
    (Conversion.ascending_axis tolerance s.playable) hm

open Conversion in
/-- The two parts of the clash each have a site, at the notes that they are on. -/
theorem convert_reports_conflicts_clash : Clash.score.Regular ∧
    Clash.settings.pace = .ok Clash.pace ∧
    Clash.settings.convert Clash.pace (.ofNat 1) Clash.score =
      .error (.roles [Clash.lost] [Clash.conflict]) ∧
    ∃ part, ConflictSite.PointsAt ⟨2, "P2", 1, some 0, .release⟩ Clash.settings Clash.score "Lungs"
      part := by
  obtain ⟨_, _, hfound⟩ := convert_reports_conflicts Clash.regular Clash.pace_eq Clash.convert_eq
  have hsite := (hfound Clash.conflict List.mem_cons_self).site ⟨2, "P2", 1, some 0, .release⟩
    (List.mem_cons_of_mem _ List.mem_cons_self)
  exact ⟨Clash.regular, Clash.pace_eq, Clash.convert_eq, hsite⟩

open Conversion in
/-- A part without a name shows as a hyphen, as if there were no part, though one is assigned. -/
theorem convert_reports_hyphen :
    Clash.settings.convert Clash.pace (.ofNat 1) Clash.score =
      .error (.roles [Clash.lost] [Clash.conflict]) ∧
    ∃ s ∈ Clash.conflict.sites, Clash.settings.AssignsPart "Lungs" s.port "" ∧ s.part = "-" ∧
      ¬ Clash.settings.AssignsPart "Lungs" s.port s.part := by
  refine ⟨Clash.convert_eq, _, List.mem_cons_self, ⟨_, rfl, rfl, rfl⟩, rfl, ?_⟩
  rintro ⟨a, hget, _⟩
  have hnone : Clash.settings.assignments.get? "-" = none := by decide +kernel
  exact absurd (hnone.symm.trans hget) (by simp)

end Settings
end Bellows
