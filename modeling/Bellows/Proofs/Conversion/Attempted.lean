import Bellows.Proofs.Conversion.AllOrNothing
import Bellows.Proofs.Conversion.Correspondence
import Bellows.Proofs.Role.Listing

/-! What becomes of the roles that a parameter document lists: each one under which it lists a part
is attempted, and nothing is ever heard of the others. -/
namespace Bellows

namespace Conversion

/-- A role that a conversion attempts is part of the schedule, or it is reported with what is wrong
with it; the commands of a role that is in order are held back if another one is reported. -/
inductive Attempted (settings : Settings) (pace : Pace) (tolerance : Binary64) (score : Score)
    (name : String) : Prop
  | scheduled {schedule : Schedule} (h : settings.convert pace tolerance score = .ok schedule)
    (hname : name ∈ schedule.roles)
  | reported {unplayable : List MappingFault} {conflicts : List Conflict}
    (h : settings.convert pace tolerance score = .error (.roles unplayable conflicts))
    (hname : (∃ f ∈ unplayable, f.role? = some name) ∨ ∃ c ∈ conflicts, c.role = name)
  | heldBack {unplayable : List MappingFault} {conflicts : List Conflict}
    {ts : List RoleTimelines} {t : RoleTimelines} {commands : List Command}
    (h : settings.convert pace tolerance score = .error (.roles unplayable conflicts))
    (hts : List.Forall₂ (fun r t => r.timelines pace score = .ok t)
      (settings.roles.filter fun r => r.Playable score) ts)
    (ht : t ∈ ts) (hname : t.role = name)
    (hm : t.merge settings.curve (axis tolerance ts) = .ok commands)

variable {settings : Settings} {pace : Pace} {tolerance : Binary64} {score : Score} {name : String}
  {s : Survey}

/-- What is complained about is a role of the settings. -/
theorem mem_roles_of_reported {ts : List RoleTimelines} {unplayable : List MappingFault}
    {conflicts : List Conflict} (hts : List.Forall₂ (fun r t => r.timelines pace score = .ok t)
      (settings.roles.filter fun r => r.Playable score) ts)
    (h : Complaints settings tolerance score ts unplayable conflicts)
    (hname : (∃ f ∈ unplayable, f.role? = some name) ∨ ∃ c ∈ conflicts, c.role = name) :
    name ∈ settings.roles.map Role.name := by
  rcases hname with ⟨f, hf, hrole⟩ | ⟨c, hc, hrole⟩
  · obtain ⟨r, hr, _, hname⟩ := exists_left_of_mem h.unplayable hf
    rw [Option.some.inj (hrole.symm.trans hname)]
    exact List.mem_map_of_mem (List.mem_of_mem_filter hr)
  · obtain ⟨t, ht, _, hname⟩ := exists_left_of_mem h.conflicts hc
    obtain ⟨r, hr, hrt⟩ := exists_left_of_mem hts (List.mem_of_mem_filter ht)
    rw [← hrole, hname, (Role.timelines_eq_ok hrt).2.1]
    exact List.mem_map_of_mem (List.mem_of_mem_filter hr)

/-- Where a survey came to its end and something is wrong, each role is reported or held back. -/
theorem attempted_of_complaint {r : Role} (hs : Surveyed pace score settings.roles s)
    (h : settings.convert pace tolerance score = .error (.roles s.unplayable
      (conflicts (mergeAll settings.curve (axis tolerance s.playable) s.playable))))
    (hr : r ∈ settings.roles) : Attempted settings pace tolerance score r.name := by
  by_cases hplay : r.Playable score
  · obtain ⟨t, ht, hrt⟩ := exists_right_of_mem hs.playable
      (List.mem_filter.mpr ⟨hr, decide_eq_true hplay⟩)
    have hrole : t.role = r.name := (Role.timelines_eq_ok hrt).2.1
    cases hm : t.merge settings.curve (axis tolerance s.playable) with
    | ok commands => exact .heldBack h hs.playable ht hrole hm
    | error c =>
      have hc : c.role = t.role := role_of_merge (ascending_axis tolerance s.playable) hm
      exact .reported h (Or.inr ⟨c, mem_conflicts.mpr ⟨t, ht, hm⟩, hc.trans hrole⟩)
  · obtain ⟨f, hf, hfault⟩ := exists_right_of_mem hs.unplayable
      (List.mem_filter.mpr ⟨hr, decide_eq_true hplay⟩)
    exact .reported h (Or.inl ⟨f, hf, Role.role?_of_fault? hfault⟩)

namespace Spare

/-- Two parts under one role, and another role that is listed without any. -/
def roles : List (Value × Value) := [
  (.text "Lungs", .map [(.text "P1", .int 2), (.text "P2", .int 4)]), (.text "Spare", .map [])]

def document : List (Value × Value) :=
  [(.text "bpm", .int 60), (.text "trill_interval_ms", .int 500), (.text "roles", .map roles)]

theorem ofDocument_eq : Settings.ofDocument document none none = .ok Duet.settings := by
  rfl

end Spare

end Conversion

namespace Settings

open Conversion

variable {settings : Settings} {pace : Pace} {tolerance : Binary64} {score : Score} {name : String}
  {entries : List (Value × Value)} {bpm step : Option Value}

/-- Unless a part cannot be laid out, the attempted roles are those of the settings. -/
theorem attempted_iff
    (hlaid : ∀ fault, settings.convert pace tolerance score ≠ .error (.layout fault)) :
    Attempted settings pace tolerance score name ↔ name ∈ settings.roles.map Role.name := by
  constructor
  · rintro (⟨h, hname⟩ | ⟨h, hname⟩ | ⟨h, hts, ht, rfl, hm⟩)
    · obtain ⟨_, hc⟩ := exists_compiled h
      rwa [← hc.roles_eq]
    · obtain ⟨s, hs, rfl, rfl⟩ := exists_survey_of_convert h
      exact mem_roles_of_reported hs.playable (complaints_of_surveyed hs tolerance) hname
    · obtain ⟨r, hr, hrt⟩ := exists_left_of_mem hts ht
      rw [(Role.timelines_eq_ok hrt).2.1]
      exact List.mem_map_of_mem (List.mem_of_mem_filter hr)
  · intro hname
    obtain ⟨r, hr, rfl⟩ := List.mem_map.mp hname
    have hnil : settings.roles ≠ [] := List.ne_nil_of_mem hr
    obtain ⟨fault, _, hfault⟩ | ⟨s, hs, hof⟩ :=
      @convert_of_ne_nil settings pace tolerance score hnil
    · exact (hlaid fault hfault).elim
    · obtain ⟨schedule, hok, hc⟩ | herror := ofSurvey_cases tolerance hnil hs
      · exact .scheduled (hof.trans hok) (hc.roles_eq ▸ hname)
      · exact attempted_of_complaint (surveyed_of_survey hs) (hof.trans herror) hr

/-- A conversion with the settings of a document attempts the roles under which the document lists
a part, and no others, unless one of the parts cannot be laid out. -/
theorem convert_attempts (h : ofDocument entries bpm step = .ok settings) (pace : Pace)
    (tolerance : Binary64) (score : Score) :
    (∃ fault, settings.convert pace tolerance score = .error (.layout fault) ∧
      ∃ r ∈ settings.roles, ∃ m ∈ r.members,
        pace.events (Role.measuresOf score m.part) = .error fault) ∨
    ∃ roles, Parameters.subEntries? "roles" entries = some roles ∧
      ∀ name, Attempted settings pace tolerance score name ↔
        ∃ role parts, (role, .map parts) ∈ roles ∧ role.name = name ∧ parts ≠ [] := by
  by_cases hlaid : ∃ fault, settings.convert pace tolerance score = .error (.layout fault)
  · obtain ⟨fault, hfault⟩ := hlaid
    obtain ⟨r, hr, hrt⟩ := exists_of_convert_eq_layout hfault
    exact Or.inl ⟨fault, hfault, r, hr, Role.exists_of_timelines_eq_layout hrt⟩
  · obtain ⟨roles, hroles, hlisted⟩ := mem_roles_iff_listed h
    have hnot := not_exists.mp hlaid
    exact Or.inr ⟨roles, hroles, fun name => (attempted_iff hnot).trans (hlisted name)⟩

/-- The role with the two parts is attempted. -/
theorem convert_attempts_lungs : ofDocument Spare.document none none = .ok Duet.settings ∧
    Attempted Duet.settings Duet.pace (.ofNat 1) Duet.score "Lungs" := by
  refine ⟨Spare.ofDocument_eq, ?_⟩
  obtain ⟨fault, hfault, _⟩ | ⟨roles, hroles, hattempted⟩ :=
    convert_attempts Spare.ofDocument_eq Duet.pace (.ofNat 1) Duet.score
  · cases Duet.convert_eq.symm.trans hfault
  · obtain rfl : Spare.roles = roles := Option.some.inj hroles
    exact (hattempted "Lungs").mpr ⟨_, _, List.mem_cons_self, rfl, List.cons_ne_nil _ _⟩

/-- The role without parts is neither in the schedule nor in any report. -/
theorem convert_drops_spare : ofDocument Spare.document none none = .ok Duet.settings ∧
    Duet.settings.pace = .ok Duet.pace ∧
    Duet.settings.convert Duet.pace (.ofNat 1) Duet.score = .ok Duet.schedule ∧
    (Value.text "Spare", Value.map []) ∈ Spare.roles ∧ "Spare" ∉ Duet.schedule.roles := by
  refine ⟨Spare.ofDocument_eq, Duet.pace_eq, Duet.convert_eq, ?_, by decide +kernel⟩
  exact List.mem_cons_of_mem _ List.mem_cons_self

end Settings
end Bellows
