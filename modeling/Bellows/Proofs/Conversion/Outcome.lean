import Bellows.Proofs.Axis.Gaps
import Bellows.Proofs.Command.Merge
import Bellows.Proofs.Conversion.Survey
import Bellows.Proofs.SideBySide

/-! The outcome of a conversion: a schedule holds every role, merged onto the axis of all of them,
and no role is ever out of step with that axis. -/
namespace Bellows

namespace Conversion

variable {settings : Settings} {pace : Pace} {tolerance : Binary64} {score : Score}
  {schedule : Schedule} {roles : List Role} {s : Survey} {curve : Curve} {ticks : List Binary64}
  {ts : List RoleTimelines}

/-- The axis of some roles is sorted. -/
theorem ascending_axis (tolerance : Binary64) (ts : List RoleTimelines) :
    Axis.Ascending (axis tolerance ts) := Axis.ascending_ofTimes tolerance _

/-- The starts of all events of some roles. -/
def starts (ts : List RoleTimelines) : List Binary64 :=
  (ts.flatMap fun t => t.ports.map PortTimeline.events).flatten.map Event.start

theorem starts_eq_flatMap (ts : List RoleTimelines) :
    starts ts = ts.flatMap fun t => t.ports.flatMap fun p => p.events.map Event.start := by
  simp [starts, List.flatMap_def, List.map_flatten, Function.comp_def, List.flatten_flatten]

/-- Roles in another order have the same starts in another order. -/
theorem perm_starts {ts ts' : List RoleTimelines} (h : ts.Perm ts') :
    (starts ts).Perm (starts ts') :=
  (h.flatMap_right _).flatten.map _

theorem axis_eq_ofTimes (tolerance : Binary64) (ts : List RoleTimelines) :
    axis tolerance ts = Axis.ofTimes tolerance (starts ts) := rfl

/-- The axis of starts that were put in order. -/
theorem axis_of_perm {ts : List RoleTimelines} (sorted : List Binary64)
    (hperm : (starts ts).Perm sorted) (hsorted : Axis.Ascending sorted)
    (hanti : ∀ a ∈ sorted, ∀ b ∈ sorted, a.sortsBefore b = true → b.sortsBefore a = true → a = b)
    (hheads : Axis.runHeads tolerance sorted = ticks) : axis tolerance ts = ticks := by
  rw [axis_eq_ofTimes, Axis.ofTimes_eq_of_perm tolerance hperm hsorted hanti, hheads]

/-- Roles that do not contradict themselves all have commands. -/
theorem exists_entries (h : conflicts (mergeAll curve ticks ts) = []) :
    ∃ es : List (String × List Command),
      mergeAll curve ticks ts = es.map (fun e => (e.1, .ok e.2)) ∧
        List.Forall₂ (fun t e => e.1 = t.role ∧ t.merge curve ticks = .ok e.2) ts es := by
  induction ts with
  | nil => exact ⟨[], rfl, .nil⟩
  | cons t ts ih =>
    cases hm : t.merge curve ticks with
    | error conflict =>
      rw [mergeAll, List.map_cons, hm] at h
      cases h
    | ok commands =>
      rw [mergeAll, List.map_cons, hm] at h
      obtain ⟨es, hes, hall⟩ := ih h
      refine ⟨(t.role, commands) :: es, ?_, .cons ⟨rfl, hm⟩ hall⟩
      rw [mergeAll, List.map_cons, hm, List.map_cons]
      exact congrArg _ hes

/-- Roles that all have commands do not contradict themselves. -/
theorem conflicts_eq_nil {es : List (String × List Command)}
    (h : List.Forall₂ (fun t e => e.1 = t.role ∧ t.merge curve ticks = .ok e.2) ts es) :
    conflicts (mergeAll curve ticks ts) = [] := by
  unfold mergeAll
  induction h with
  | nil => rfl
  | cons he _ ih =>
    rw [List.map_cons, he.2]
    exact ih

theorem instructions_map_ok (es : List (String × List Command)) :
    instructions (es.map fun e => (e.1, .ok e.2)) = Keyed.ofList es := by
  simp [instructions, List.filterMap_map]

/-- Merged roles are never out of step with their axis. -/
theorem lengthFault?_instructions (h : Axis.Ascending ticks)
    {es : List (String × List Command)}
    (hall : List.Forall₂ (fun t e => e.1 = t.role ∧ t.merge curve ticks = .ok e.2) ts es)
    (hkeys : (es.map Prod.fst).Nodup) :
    Schedule.lengthFault? ticks.length (Keyed.ofList es) = none := by
  rw [Schedule.lengthFault?, Keyed.entries_ofList hkeys, Option.map_eq_none_iff,
    List.find?_eq_none]
  intro e he
  obtain ⟨t, _, _, hm⟩ := exists_left_of_mem hall he
  simp [(t.resolve_of_merge h hm).1]

/-- What a conversion makes of the timelines of all roles. -/
structure Compiled (settings : Settings) (pace : Pace) (tolerance : Binary64) (score : Score)
    (ts : List RoleTimelines) (schedule : Schedule) : Prop where
  roles_ne_nil : settings.roles ≠ []
  timelines : List.Forall₂ (fun r t => r.timelines pace score = .ok t) settings.roles ts
  time : schedule.time = axis tolerance ts
  merged : List.Forall₂ (fun t e => e.1 = t.role ∧ t.merge settings.curve schedule.time = .ok e.2)
    ts schedule.instructions.entries

/-- Timelines are named as their roles are. -/
theorem map_role (h : List.Forall₂ (fun r t => r.timelines pace score = .ok t) roles ts) :
    ts.map RoleTimelines.role = roles.map Role.name := by
  induction h with
  | nil => rfl
  | cons ht _ ih => rw [List.map_cons, List.map_cons, ih, (Role.timelines_eq_ok ht).2.1]

theorem map_fst {es : List (String × List Command)}
    (h : List.Forall₂ (fun t e => e.1 = t.role ∧ t.merge curve ticks = .ok e.2) ts es) :
    es.map Prod.fst = ts.map RoleTimelines.role := by
  induction h with
  | nil => rfl
  | cons he _ ih => rw [List.map_cons, List.map_cons, ih, he.1]

/-- Where nothing is wrong with any role, they all make a schedule. -/
theorem ofSurvey_of_nil (tolerance : Binary64) (hne : settings.roles ≠ [])
    (hs : survey pace score settings.roles = .ok s) (hun : s.unplayable = [])
    (hcon : conflicts (mergeAll settings.curve (axis tolerance s.playable) s.playable) = []) :
    ∃ schedule, ofSurvey settings.curve tolerance s = .ok schedule ∧
      Compiled settings pace tolerance score s.playable schedule := by
  obtain ⟨es, hes, hall⟩ := exists_entries hcon
  have htimelines := forall₂_of_survey hs hun
  have hkeys : (es.map Prod.fst).Nodup := by
    rw [map_fst hall, map_role htimelines]
    exact settings.nodup_roles
  have hlen := lengthFault?_instructions (ascending_axis tolerance s.playable) hall hkeys
  have hok : (s.unplayable.isEmpty && (conflicts (mergeAll settings.curve
      (axis tolerance s.playable) s.playable)).isEmpty) = true := by
    rw [hun, hcon]
    rfl
  simp only [ofSurvey]
  rw [if_pos hok, hes, instructions_map_ok, Schedule.assemble, hlen]
  refine ⟨_, rfl, hne, htimelines, rfl, ?_⟩
  rw [Keyed.entries_ofList hkeys]
  exact hall

/-- Where something is wrong, all of it is listed. -/
theorem ofSurvey_of_complaint (h : ¬ (s.unplayable = [] ∧
    conflicts (mergeAll curve (axis tolerance s.playable) s.playable) = [])) :
    ofSurvey curve tolerance s = .error (.roles s.unplayable
      (conflicts (mergeAll curve (axis tolerance s.playable) s.playable))) := by
  refine if_neg fun hok => h ?_
  rwa [Bool.and_eq_true, List.isEmpty_iff, List.isEmpty_iff] at hok

/-- A survey of all roles gives a schedule of them all, or the faults of those that fail. -/
theorem ofSurvey_cases (tolerance : Binary64) (hne : settings.roles ≠ [])
    (hs : survey pace score settings.roles = .ok s) :
    (∃ schedule, ofSurvey settings.curve tolerance s = .ok schedule ∧
      Compiled settings pace tolerance score s.playable schedule) ∨
    ofSurvey settings.curve tolerance s =
      .error (.roles s.unplayable
        (conflicts (mergeAll settings.curve (axis tolerance s.playable) s.playable))) := by
  by_cases h : s.unplayable = [] ∧
      conflicts (mergeAll settings.curve (axis tolerance s.playable) s.playable) = []
  · exact Or.inl (ofSurvey_of_nil tolerance hne hs h.1 h.2)
  · exact Or.inr (ofSurvey_of_complaint h)

end Conversion

namespace Settings

variable {settings : Settings} {pace : Pace} {tolerance : Binary64} {score : Score}
  {schedule : Schedule}

theorem convert_of_nil (h : settings.roles = []) :
    settings.convert pace tolerance score = .error .nothingMapped := by
  rw [convert, h]
  rfl

/-- With roles to play, a conversion is the outcome of a survey of them, if each part of them can
be laid out. -/
theorem convert_of_ne_nil (h : settings.roles ≠ []) :
    (∃ fault, Conversion.survey pace score settings.roles = .error fault ∧
      settings.convert pace tolerance score = .error (.layout fault)) ∨
    ∃ s, Conversion.survey pace score settings.roles = .ok s ∧
      settings.convert pace tolerance score = Conversion.ofSurvey settings.curve tolerance s := by
  have hne : ¬ settings.roles.isEmpty = true := fun hnil => h (List.isEmpty_iff.mp hnil)
  unfold convert
  rw [if_neg hne]
  cases hs : Conversion.survey pace score settings.roles with
  | error fault => exact Or.inl ⟨fault, rfl, rfl⟩
  | ok s => exact Or.inr ⟨s, rfl, rfl⟩

/-- A survey that comes to its end decides the conversion. -/
theorem convert_of_survey {s : Conversion.Survey} (h : settings.roles ≠ [])
    (hs : Conversion.survey pace score settings.roles = .ok s) :
    settings.convert pace tolerance score = Conversion.ofSurvey settings.curve tolerance s := by
  obtain ⟨_, hfault, _⟩ | ⟨_, hs', hof⟩ :=
    @convert_of_ne_nil settings pace tolerance score h
  · cases hs.symm.trans hfault
  · cases hs.symm.trans hs'
    exact hof

/-- A conversion is refused before anything is merged, lists the faults of the roles that fail, or
gives a schedule made from the timelines of all roles. -/
theorem convert_cases (settings : Settings) (pace : Pace) (tolerance : Binary64) (score : Score) :
    settings.convert pace tolerance score = .error .nothingMapped ∨
    (∃ fault, settings.convert pace tolerance score = .error (.layout fault)) ∨
    (∃ unplayable conflicts, settings.convert pace tolerance score =
      .error (.roles unplayable conflicts)) ∨
    ∃ schedule ts, settings.convert pace tolerance score = .ok schedule ∧
      Conversion.Compiled settings pace tolerance score ts schedule := by
  by_cases hnil : settings.roles = []
  · exact Or.inl (convert_of_nil hnil)
  · obtain ⟨fault, _, hlayout⟩ | ⟨s, hs, hof⟩ := convert_of_ne_nil hnil
    · exact Or.inr (Or.inl ⟨fault, hlayout⟩)
    · rw [hof]
      obtain ⟨schedule, hok, hc⟩ | herr := Conversion.ofSurvey_cases tolerance hnil hs
      · exact Or.inr (Or.inr (Or.inr ⟨schedule, _, hok, hc⟩))
      · exact Or.inr (Or.inr (Or.inl ⟨_, _, herr⟩))

/-- A schedule comes from the timelines of all roles. -/
theorem exists_compiled (h : settings.convert pace tolerance score = .ok schedule) :
    ∃ ts, Conversion.Compiled settings pace tolerance score ts schedule := by
  obtain hnil | ⟨_, hlayout⟩ | ⟨_, _, hroles⟩ | ⟨schedule', ts, hok, hc⟩ :=
    convert_cases settings pace tolerance score
  · cases hnil.symm.trans h
  · cases hlayout.symm.trans h
  · cases hroles.symm.trans h
  · cases hok.symm.trans h
    exact ⟨ts, hc⟩

/-- Timelines of all roles that merge without a conflict decide the conversion. -/
theorem convert_eq_of_compiled {ts : List RoleTimelines}
    (h : Conversion.Compiled settings pace tolerance score ts schedule) :
    settings.convert pace tolerance score = .ok schedule := by
  obtain ⟨time, instructions⟩ := schedule
  obtain ⟨hne, htimelines, htime, hmerged⟩ := h
  obtain rfl : time = Conversion.axis tolerance ts := htime
  have hs := Conversion.survey_eq_ok htimelines
  have hfree := Conversion.conflicts_eq_nil hmerged
  obtain ⟨schedule, hok, hc⟩ := Conversion.ofSurvey_of_nil tolerance hne hs rfl hfree
  rw [convert_of_survey hne hs, hok]
  have hentries : schedule.instructions.entries = instructions.entries := by
    have hmerged' := hc.merged
    rw [hc.time] at hmerged'
    refine List.forall₂_eq_eq_eq ▸ forall₂_of_common hmerged' hmerged fun t _ e e' he he' => ?_
    exact Prod.ext (he.1.trans he'.1.symm) (Except.ok.inj (he.2.symm.trans he'.2))
  have hschedule : schedule = ⟨Conversion.axis tolerance ts, instructions⟩ := by
    obtain ⟨time', instructions'⟩ := schedule
    rw [Schedule.mk.injEq]
    exact ⟨hc.time, Keyed.ext hentries⟩
  rw [hschedule]

/-- No conversion ends with a role whose commands do not match the axis. -/
theorem convert_ne_length (fault : LengthFault) :
    settings.convert pace tolerance score ≠ .error (.length fault) := by
  intro h
  obtain hnil | ⟨_, hlayout⟩ | ⟨_, _, hroles⟩ | ⟨schedule', ts, hok, hc⟩ :=
    convert_cases settings pace tolerance score
  · cases hnil.symm.trans h
  · cases hlayout.symm.trans h
  · cases hroles.symm.trans h
  · cases hok.symm.trans h

end Settings

namespace Conversion.Compiled

variable {settings : Settings} {pace : Pace} {tolerance : Binary64} {score : Score}
  {schedule : Schedule} {ts : List RoleTimelines} {role : String} {commands : List Command}
  (h : Compiled settings pace tolerance score ts schedule)
include h

theorem ascending : Axis.Ascending schedule.time := by
  rw [h.time]
  exact ascending_axis tolerance ts

/-- The roles of the schedule are those of the settings, in their order. -/
theorem roles_eq : schedule.roles = settings.roles.map Role.name :=
  (map_fst h.merged).trans (map_role h.timelines)

/-- The commands of a role are its own timelines merged onto the axis. -/
theorem exists_role (hmem : (role, commands) ∈ schedule.instructions.entries) :
    ∃ r ∈ settings.roles, ∃ t ∈ ts, r.name = role ∧ r.timelines pace score = .ok t ∧
      t.role = role ∧ t.merge settings.curve schedule.time = .ok commands := by
  obtain ⟨t, ht, hrole, hm⟩ := exists_left_of_mem h.merged hmem
  obtain ⟨r, hr, hrt⟩ := exists_left_of_mem h.timelines ht
  exact ⟨r, hr, t, ht, (Role.timelines_eq_ok hrt).2.1.symm.trans hrole.symm, hrt, hrole.symm, hm⟩

end Conversion.Compiled

/-! What the settings of the examples have in common: one tempo, one role, and some of its ports. -/
namespace Conversion.Sample

theorem lungs_ne_empty : "Lungs" ≠ "" := by decide

theorem first_mem : 1 ≤ (1 : Int) ∧ (1 : Int) ≤ portCount := by decide

theorem second_mem : 1 ≤ (2 : Int) ∧ (2 : Int) ≤ portCount := by decide

theorem fourth_mem : 1 ≤ (4 : Int) ∧ (4 : Int) ≤ portCount := by decide

theorem bpm_pos : (0 : Int) < 60 := by decide

end Conversion.Sample

namespace Conversion.Duet

open Sample

/-- A long note of one part, and in its second half an ornament of another one. -/
def score : Score := Keyed.ofList [
  ("P1", ⟨"Low", [⟨1, ⟨2, 4⟩, 1, [⟨.actuate .mf, 2⟩]⟩]⟩),
  ("P2", ⟨"High", [⟨1, ⟨2, 4⟩, 1, [⟨.hold, 1⟩, ⟨.hardTrill .p, 1⟩]⟩]⟩)]

/-- Both parts play one role. -/
def settings : Settings := ⟨60, Keyed.ofList [
  ("P1", ⟨"Lungs", 2, lungs_ne_empty, second_mem⟩),
  ("P2", ⟨"Lungs", 4, lungs_ne_empty, fourth_mem⟩)],
  default, .int 500, bpm_pos⟩

def pace : Pace := ⟨.whole 60, 500⟩

def low : List Event :=
  [⟨.ofNat 0, .inflate, .mf, 1, some 0⟩, ⟨.ofNat 2000, .noChange, .mf, 1, none⟩]

def high : List Event := [⟨.ofNat 0, .noChange, .ppp, 1, some 0⟩,
  ⟨.ofNat 1000, .trillInflate, .p, 1, some 1⟩, ⟨.ofNat 1500, .trillRelease, .p, 1, some 1⟩,
  ⟨.ofNat 2000, .noChange, .p, 1, none⟩]

def timelines : RoleTimelines := ⟨"Lungs", [⟨2, "P1", low⟩, ⟨4, "P2", high⟩]⟩

def time : List Binary64 := [.ofNat 0, .ofNat 1000, .ofNat 1500, .ofNat 2000]

/-- The ornament overrules the long note, also while it lets air out. -/
def commands : List Command := [
  ⟨.actuate, 160, [.closed, .opened, .closed, .closed, .closed]⟩,
  ⟨.actuate, 160, [.closed, .closed, .closed, .opened, .closed]⟩,
  ⟨.release, 160, [.closed, .closed, .closed, .opened, .closed]⟩,
  ⟨.stop, 0, [.closed, .closed, .closed, .closed, .closed]⟩]

def schedule : Schedule := ⟨time, Keyed.ofList [("Lungs", commands)]⟩

theorem pace_eq : settings.pace = .ok pace :=
  Settings.pace_eq_ok rfl (by decide) (by decide +kernel)

theorem regular : score.Regular := by decide +kernel

theorem timelines_eq :
    Role.timelines ⟨"Lungs", [⟨"P1", 2⟩, ⟨"P2", 4⟩]⟩ pace score = .ok timelines := by
  have hlow : pace.events (Role.measuresOf score "P1") = .ok low := by decide +kernel
  have hhigh : pace.events (Role.measuresOf score "P2") = .ok high := by decide +kernel
  exact Role.timelines_of_sorted (by decide +kernel) (by decide)
    (.cons ⟨rfl, rfl, hlow⟩ (.cons ⟨rfl, rfl, hhigh⟩ .nil))

theorem axis_eq : axis (.ofNat 1) [timelines] = time :=
  axis_of_perm [.ofNat 0, .ofNat 0, .ofNat 1000, .ofNat 1500, .ofNat 2000, .ofNat 2000]
    (by decide +kernel) (by decide +kernel) (by decide +kernel) (by decide +kernel)

/-- The two parts as a schedule. -/
theorem convert_eq : settings.convert pace (.ofNat 1) score = .ok schedule := by
  have hroles : settings.roles = [⟨"Lungs", [⟨"P1", 2⟩, ⟨"P2", 4⟩]⟩] := by decide +kernel
  have hsurvey : survey pace score settings.roles = .ok ⟨[timelines], []⟩ := by
    rw [hroles, survey, timelines_eq]
    rfl
  have hmerge : timelines.merge settings.curve time = .ok commands := by decide +kernel
  have hmerged : mergeAll settings.curve time [timelines] = [("Lungs", .ok commands)] :=
    congrArg (fun merged => [("Lungs", merged)]) hmerge
  rw [Settings.convert, hsurvey, hroles]
  simp only [ofSurvey, axis_eq, hmerged]
  rfl

end Conversion.Duet
end Bellows
