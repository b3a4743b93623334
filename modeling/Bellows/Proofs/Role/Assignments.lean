import Bellows.Proofs.Role.Playable

/-! The roles of some settings and their assignments: each assignment makes its part a member of its
role, and a playable role has no more than one part at a port. -/
namespace Bellows

/-- Whether settings give a part a role and a port of it. -/
def Settings.AssignsPart (s : Settings) (role : String) (port : Int) (part : String) : Prop :=
  ∃ a, s.assignments.get? part = some a ∧ a.role = role ∧ a.port = port

namespace Settings

variable {settings : Settings} {r : Role} {m : Member} {role part : String} {port : Int}
  {score : Score}

/-- Every assignment makes its part a member of a role. -/
theorem exists_role (h : settings.AssignsPart role port part) :
    ∃ r ∈ settings.roles, r.name = role ∧ ⟨part, port⟩ ∈ r.members := by
  obtain ⟨a, hget, rfl, rfl⟩ := h
  have hentry := (settings.assignments.get?_eq_some_iff part a).mp hget
  obtain ⟨r, hr, hname⟩ := List.mem_map.mp (mem_names_iff.mpr ⟨_, hentry, rfl⟩)
  refine ⟨r, hr, hname, ?_⟩
  rw [members_eq hr]
  exact List.mem_map.mpr ⟨_, List.mem_filter.mpr ⟨hentry, decide_eq_true hname.symm⟩, rfl⟩

/-- The members of a role are the parts that are assigned to it. -/
theorem mem_members_iff (hr : r ∈ settings.roles) :
    ⟨part, port⟩ ∈ r.members ↔ settings.AssignsPart r.name port part := by
  constructor
  · exact exists_assignment hr
  · intro h
    obtain ⟨q, hq, hname, hm⟩ := exists_role h
    rwa [List.inj_on_of_nodup_map settings.nodup_roles hq hr hname] at hm

/-- Members of roles are mapped. -/
theorem mem_keys (hr : r ∈ settings.roles) (hm : m ∈ r.members) :
    m.part ∈ settings.assignments.keys := by
  obtain ⟨a, hget, _⟩ := exists_assignment hr hm
  exact List.mem_map_of_mem ((settings.assignments.get?_eq_some_iff m.part a).mp hget)

/-- A playable role has one part at a port. -/
theorem eq_of_assignsPart {part' : String} (hr : r ∈ settings.roles) (hplay : r.Playable score)
    (h : settings.AssignsPart r.name port part) (h' : settings.AssignsPart r.name port part') :
    part = part' := by
  have hm := (mem_members_iff hr).mpr h
  have hm' := (mem_members_iff hr).mpr h'
  exact congrArg Member.part (List.inj_on_of_nodup_map hplay.nodup hm hm' rfl)

/-- With assignments there are roles. -/
theorem roles_ne_nil (h : settings.assignments.entries ≠ []) : settings.roles ≠ [] := by
  obtain ⟨⟨part, a⟩, ha⟩ := List.exists_mem_of_ne_nil _ h
  have hget := (settings.assignments.get?_eq_some_iff part a).mpr ha
  obtain ⟨r, hr, -⟩ := exists_role ⟨a, hget, rfl, rfl⟩
  exact List.ne_nil_of_mem hr

end Settings
end Bellows
