import Mathlib.Data.List.Induction
import Bellows.Proofs.Event.Pinned
import Bellows.Proofs.Value.Quantity
import Bellows.Role.Timeline

/-! Roles and their timelines: which ports a playable role drives, and with what. -/
namespace Bellows

/-- A score in which time runs forwards. -/
def Score.Regular (score : Score) : Prop :=
  ∀ e ∈ score.entries, ∀ m ∈ e.2.measures, m.Regular

instance (score : Score) : Decidable score.Regular := by
  unfold Score.Regular
  infer_instance

namespace Settings

variable {assignments : List (String × Assignment)} {rs : List Role} {r : Role}

/-- The names of roles after a member was added: a new name comes last. -/
theorem names_addMember (name : String) (m : Member) (rs : List Role) :
    (addMember name m rs).map Role.name =
      if name ∈ rs.map Role.name then rs.map Role.name else rs.map Role.name ++ [name] := by
  induction rs with
  | nil => simp [addMember]
  | cons r rs ih =>
    unfold addMember
    by_cases h : r.name = name
    · subst h
      simp
    · simp only [h, if_false, List.map_cons, ih, List.mem_cons, Ne.symm h, false_or]
      split <;> simp

theorem rolesOf_concat (assignments : List (String × Assignment)) (a : String × Assignment) :
    rolesOf (assignments ++ [a]) = addMember a.2.role ⟨a.1, a.2.port⟩ (rolesOf assignments) :=
  List.foldl_concat ..

/-- Roles come in the order in which they are first named. -/
theorem names_rolesOf (assignments : List (String × Assignment)) :
    (rolesOf assignments).map Role.name = (assignments.map fun a => a.2.role).eraseDups := by
  induction assignments using List.reverseRecOn with
  | nil => rfl
  | append_singleton assignments a ih =>
    rw [rolesOf_concat, names_addMember, ih, List.map_append, List.eraseDups_append]
    by_cases h : a.2.role ∈ assignments.map fun a => a.2.role
    · rw [if_pos (List.mem_eraseDups.mpr h)]
      simp [List.removeAll, h]
    · have hnew : [a.2.role].removeAll (assignments.map fun a => a.2.role) = [a.2.role] := by
        simp [List.removeAll, h]
      rw [if_neg (mt List.mem_eraseDups.mp h), List.map_singleton, hnew]
      rfl

/-- Each role is named once. -/
theorem nodup_rolesOf (assignments : List (String × Assignment)) :
    ((rolesOf assignments).map Role.name).Nodup := by
  induction assignments using List.reverseRecOn with
  | nil => exact List.nodup_nil
  | append_singleton assignments a ih =>
    rw [rolesOf_concat, names_addMember]
    exact Keyed.nodup_add ih

theorem nodup_roles (s : Settings) : (s.roles.map Role.name).Nodup := nodup_rolesOf _

/-- The names of roles are those in the assignments. -/
theorem mem_names_iff {settings : Settings} {name : String} :
    name ∈ settings.roles.map Role.name ↔ ∃ a ∈ settings.assignments.entries, a.2.role = name := by
  rw [roles, names_rolesOf, List.mem_eraseDups, List.mem_map]

/-- The members under a name in a list of roles. -/
def membersOf (name : String) : List Role → List Member
  | [] => []
  | r :: rs => if r.name = name then r.members else membersOf name rs

theorem membersOf_addMember (name role : String) (m : Member) (rs : List Role) :
    membersOf name (addMember role m rs) =
      if role = name then membersOf name rs ++ [m] else membersOf name rs := by
  induction rs with
  | nil =>
    unfold addMember membersOf
    split <;> rfl
  | cons r rs ih =>
    unfold addMember
    by_cases hr : r.name = role
    · rw [if_pos hr]
      by_cases hname : role = name
      · simp [membersOf, hr, hname]
      · simp [membersOf, hr, hname]
    · rw [if_neg hr]
      by_cases hname : r.name = name
      · have hne : role ≠ name := fun h => hr (hname.trans h.symm)
        simp [membersOf, hname, hne]
      · simp [membersOf, hname, ih]

/-- Members come in the order of the assignments. -/
theorem membersOf_rolesOf (name : String) (assignments : List (String × Assignment)) :
    membersOf name (rolesOf assignments) =
      (assignments.filter fun a => a.2.role = name).map fun a => ⟨a.1, a.2.port⟩ := by
  induction assignments using List.reverseRecOn with
  | nil => rfl
  | append_singleton assignments a ih =>
    rw [rolesOf_concat, membersOf_addMember, ih]
    by_cases ha : a.2.role = name
    · simp [ha]
    · simp [ha]

theorem membersOf_of_mem (hnodup : (rs.map Role.name).Nodup) (hr : r ∈ rs) :
    membersOf r.name rs = r.members := by
  induction rs with
  | nil => cases hr
  | cons q rs ih =>
    obtain ⟨hq, hrs⟩ := List.nodup_cons.mp hnodup
    unfold membersOf
    rcases List.mem_cons.mp hr with rfl | hr
    · rw [if_pos rfl]
    · have hne : q.name ≠ r.name := fun h => hq (h ▸ List.mem_map_of_mem hr)
      rw [if_neg hne, ih hrs hr]

theorem members_of_mem_rolesOf (hr : r ∈ rolesOf assignments) :
    r.members = (assignments.filter fun a => a.2.role = r.name).map fun a => ⟨a.1, a.2.port⟩ := by
  rw [← membersOf_of_mem (nodup_rolesOf assignments) hr, membersOf_rolesOf]

/-- The members of a role are its assignments, in their order. -/
theorem members_eq {settings : Settings} (hr : r ∈ settings.roles) :
    r.members = (settings.assignments.entries.filter fun a => a.2.role = r.name).map
      fun a => ⟨a.1, a.2.port⟩ :=
  members_of_mem_rolesOf hr

/-- Every member of a role stands for an assignment. -/
theorem exists_assignment {s : Settings} {m : Member} (hr : r ∈ s.roles) (hm : m ∈ r.members) :
    ∃ a, s.assignments.get? m.part = some a ∧ a.role = r.name ∧ a.port = m.port := by
  rw [members_eq hr] at hm
  obtain ⟨⟨part, a⟩, ha, rfl⟩ := List.mem_map.mp hm
  obtain ⟨hentry, hrole⟩ := List.mem_filter.mp ha
  exact ⟨a, (s.assignments.get?_eq_some_iff part a).mpr hentry, of_decide_eq_true hrole, rfl⟩

theorem tempo_of_pace {s : Settings} {pace : Pace} (h : s.pace = .ok pace) :
    pace.tempo = .whole s.bpm := Pace.tempo_of_ofValues h

/-- The pace of some settings only depends on whether their step names a fraction. -/
theorem pace_eq_map_fraction {s : Settings} {q : Quantity} (hq : s.step.quantity? = some q)
    (hpos : q.le (.whole 0) = false) :
    s.pace = s.step.fraction.map fun interval => ⟨.whole s.bpm, interval⟩ := by
  have htempo : (Value.int s.bpm).atMostZero = .ok false := by
    rw [Value.atMostZero, Value.quantity?]
    simpa using s.bpm_pos
  have hstep : s.step.atMostZero = .ok false := by rw [Value.atMostZero, hq, ← hpos]
  unfold pace Pace.ofValues
  rw [htempo, hstep]
  cases s.step.fraction <;> rfl

/-- A step that is a positive whole number is taken as it is. -/
theorem pace_eq_ok {s : Settings} {n : Int} (hstep : s.step = .int n) (hn : 0 < n)
    (hshort : (Value.int n).isTooLong = false) : s.pace = .ok ⟨.whole s.bpm, n⟩ := by
  have hq : s.step.quantity? = some (.whole n) := by rw [hstep, Value.quantity?]
  rw [pace_eq_map_fraction hq (by simpa using hn), hstep, Value.fraction, hshort]
  rfl

end Settings

namespace Role

variable {r : Role} {pace : Pace} {score : Score} {t : RoleTimelines} {m : Member}
  {p : PortTimeline}

/-- By port, members stand in the order of their ports. -/
theorem pairwise_byPort (r : Role) : r.byPort.Pairwise fun a b => a.port ≤ b.port := by
  have hsort : r.byPort.Pairwise fun a b => decide (a.port ≤ b.port) = true := by
    apply List.pairwise_mergeSort
    · intro a b c hab hbc
      simp only [decide_eq_true_eq] at *
      omega
    · intro a b
      simp only [Bool.or_eq_true, decide_eq_true_eq]
      omega
  exact hsort.imp of_decide_eq_true

/-- The timeline of a member: the events of its part at its port. -/
structure Drives (pace : Pace) (score : Score) (m : Member) (p : PortTimeline) : Prop where
  port : p.port = m.port
  part : p.part = m.part
  events : pace.events (measuresOf score m.part) = .ok p.events

theorem drives_of_portTimeline (h : portTimeline pace score m = .ok p) :
    Drives pace score m p := by
  obtain ⟨events, hevents, hp⟩ := exists_of_bind_eq_ok h
  cases hp
  exact ⟨rfl, rfl, hevents⟩

/-- A playable role has the timelines of its members, in the order of their ports. -/
theorem timelines_eq_ok (h : r.timelines pace score = .ok t) :
    r.fault? score = none ∧ t.role = r.name ∧
      List.Forall₂ (Drives pace score) r.byPort t.ports := by
  unfold timelines at h
  cases hf : r.fault? score with
  | some fault =>
    rw [hf] at h
    cases h
  | none =>
    rw [hf] at h
    cases hp : r.byPort.mapM (portTimeline pace score) with
    | error fault =>
      rw [hp] at h
      cases h
    | ok ports =>
      rw [hp] at h
      cases h
      exact ⟨rfl, rfl, (mapM_eq_ok_iff.mp hp).imp fun _ _ => drives_of_portTimeline⟩

theorem portTimeline_of_drives (h : Drives pace score m p) : portTimeline pace score m = .ok p := by
  obtain ⟨port, part, events⟩ := p
  obtain ⟨rfl, rfl, hevents⟩ := h
  rw [portTimeline, hevents]
  rfl

/-- Members that stand in the order of their ports already give their timelines one by one. -/
theorem timelines_of_sorted {ports : List PortTimeline} (hfault : r.fault? score = none)
    (hsorted : r.members.Pairwise fun a b => a.port ≤ b.port)
    (hall : List.Forall₂ (Drives pace score) r.members ports) :
    r.timelines pace score = .ok ⟨r.name, ports⟩ := by
  have hsort : r.byPort = r.members :=
    List.mergeSort_of_pairwise (hsorted.imp fun h => decide_eq_true h)
  have hports : r.members.mapM (portTimeline pace score) = .ok ports :=
    mapM_eq_ok_iff.mpr (hall.imp fun _ _ => portTimeline_of_drives)
  rw [timelines, hfault, hsort, hports]

/-- A role with one part has the events of that part. -/
theorem timelines_singleton {name part : String} {port : Int} {events : List Event}
    (hfault : fault? ⟨name, [⟨part, port⟩]⟩ score = none)
    (hevents : pace.events (measuresOf score part) = .ok events) :
    timelines ⟨name, [⟨part, port⟩]⟩ pace score = .ok ⟨name, [⟨port, part, events⟩]⟩ :=
  timelines_of_sorted hfault (List.pairwise_singleton _ _) (.cons ⟨rfl, rfl, hevents⟩ .nil)

/-- Every timeline of a role is that of one of its members. -/
theorem exists_member (h : r.timelines pace score = .ok t) (hp : p ∈ t.ports) :
    ∃ m ∈ r.members, Drives pace score m p := by
  obtain ⟨_, _, hall⟩ := timelines_eq_ok h
  obtain ⟨m, hm, hd⟩ := exists_left_of_mem hall hp
  exact ⟨m, List.mem_mergeSort.mp hm, hd⟩

/-- A playable role drives at least one port. -/
theorem ports_ne_nil (h : r.timelines pace score = .ok t) : t.ports ≠ [] := by
  obtain ⟨hf, _, hall⟩ := timelines_eq_ok h
  intro hnil
  rw [hnil, List.forall₂_nil_right_iff] at hall
  have hmembers : r.members = [] := by
    refine List.eq_nil_iff_forall_not_mem.mpr fun m hm => ?_
    have hsorted : m ∈ r.byPort := List.mem_mergeSort.mpr hm
    rw [hall] at hsorted
    cases hsorted
  rw [fault?, hmembers] at hf
  cases hf

theorem regular_measuresOf (h : score.Regular) (part : String) {measure : Measure}
    (hm : measure ∈ measuresOf score part) : measure.Regular := by
  unfold measuresOf at hm
  cases hget : score.get? part with
  | none =>
    rw [hget] at hm
    cases hm
  | some p =>
    rw [hget] at hm
    exact h (part, p) ((score.get?_eq_some_iff part p).mp hget) measure hm

/-- Every timeline of a role in whose part time runs forwards is in order, begins at zero and ends
with a pin. -/
theorem pinned_of_timelines {bpm : Int} (htempo : pace.tempo = .whole bpm) (hbpm : 0 < bpm)
    (h : r.timelines pace score = .ok t) (hp : p ∈ t.ports)
    (hforwards : ∀ m ∈ measuresOf score p.part, m.Forwards) : Event.Pinned p.events := by
  obtain ⟨m, _, hd⟩ := exists_member h hp
  rw [hd.part] at hforwards
  exact Pace.pinned_events htempo hbpm hforwards hd.events

end Role
end Bellows
