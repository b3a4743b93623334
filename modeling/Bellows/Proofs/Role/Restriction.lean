import Mathlib.Data.List.Perm.Basic
import Bellows.Proofs.Role.Assignments

/-! Settings restricted to one role. The role keeps its members, whatever else is assigned and in
whatever order, and with them its timelines. -/
namespace Bellows

namespace Settings

/-- The first settings have exactly the assignments of one role of the second ones, and otherwise do
not differ from them. -/
structure Restricts (small large : Settings) (role : String) : Prop where
  bpm : small.bpm = large.bpm
  curve : small.curve = large.curve
  step : small.step = large.step
  assignments : ∀ part a, small.assignments.get? part = some a ↔
    large.assignments.get? part = some a ∧ a.role = role

variable {small large settings : Settings} {role name part : String} {port : Int} {r q : Role}

/-- No part is a member twice. -/
theorem nodup_members (hr : r ∈ settings.roles) : r.members.Nodup := by
  have hparts : (r.members.map Member.part).Nodup := by
    rw [members_eq hr, List.map_map]
    exact settings.assignments.distinct.sublist (List.filter_sublist.map Prod.fst)
  exact List.Nodup.of_map Member.part hparts

namespace Restricts

variable (h : small.Restricts large role)
include h

theorem pace_eq : small.pace = large.pace := by
  rw [pace, pace, h.bpm, h.step]

theorem assignsPart_iff : small.AssignsPart name port part ↔
    large.AssignsPart name port part ∧ name = role := by
  constructor
  · rintro ⟨a, hget, rfl, rfl⟩
    obtain ⟨hlarge, hrole⟩ := (h.assignments part a).mp hget
    exact ⟨⟨a, hlarge, rfl, rfl⟩, hrole⟩
  · rintro ⟨⟨a, hget, rfl, rfl⟩, hrole⟩
    exact ⟨a, (h.assignments part a).mpr ⟨hget, hrole⟩, rfl, rfl⟩

/-- There is no other role in the smaller settings. -/
theorem name_eq (hr : r ∈ small.roles) (hne : r.members ≠ []) : r.name = role := by
  obtain ⟨⟨part, port⟩, hm⟩ := List.exists_mem_of_ne_nil _ hne
  exact (h.assignsPart_iff.mp ((mem_members_iff hr).mp hm)).2

/-- The role is among those of the larger settings, with the same members. -/
theorem exists_role (hr : r ∈ small.roles) (hne : r.members ≠ []) :
    ∃ q ∈ large.roles, q.name = r.name ∧ r.members.Perm q.members := by
  obtain ⟨⟨part, port⟩, hm⟩ := List.exists_mem_of_ne_nil _ hne
  have hassigns := (h.assignsPart_iff.mp ((mem_members_iff hr).mp hm)).1
  obtain ⟨q, hq, hname, _⟩ := Settings.exists_role hassigns
  refine ⟨q, hq, hname, ?_⟩
  apply (List.perm_ext_iff_of_nodup (nodup_members hr) (nodup_members hq)).mpr
  rintro ⟨part', port'⟩
  rw [mem_members_iff hr, mem_members_iff hq, h.assignsPart_iff, hname]
  exact and_iff_left (h.name_eq hr hne)

end Restricts

end Settings

namespace Role

variable {r q : Role} {score : Score} {pace : Pace}

/-- Whether a role can be played does not depend on the order of its members. -/
theorem playable_of_perm (h : r.Playable score) (hperm : r.members.Perm q.members) :
    q.Playable score := by
  refine ⟨?_, ?_, ?_, ?_⟩
  · intro hnil
    rw [hnil, List.perm_nil] at hperm
    exact h.members_ne_nil hperm
  · rw [← hperm.length_eq]
    exact h.length_le
  · intro m hm
    exact h.contained m (hperm.mem_iff.mpr hm)
  · exact (hperm.map Member.port).nodup_iff.mp h.nodup

/-- By port, members come in one order only. -/
theorem byPort_eq_of_perm (h : r.Playable score) (hperm : r.members.Perm q.members) :
    r.byPort = q.byPort := by
  have hall : r.byPort.Perm q.byPort :=
    (List.mergeSort_perm _ _).trans (hperm.trans (List.mergeSort_perm _ _).symm)
  refine hall.eq_of_pairwise (fun a b ha hb hab hba => ?_) r.pairwise_byPort q.pairwise_byPort
  have hma : a ∈ r.members := List.mem_mergeSort.mp ha
  have hmb : b ∈ r.members := hperm.mem_iff.mpr (List.mem_mergeSort.mp hb)
  exact List.inj_on_of_nodup_map h.nodup hma hmb (Int.le_antisymm hab hba)

/-- Roles with the same members have the same timelines. -/
theorem timelines_eq_of_perm (h : r.Playable score) (hname : q.name = r.name)
    (hperm : r.members.Perm q.members) : q.timelines pace score = r.timelines pace score := by
  unfold timelines
  rw [fault?_eq_none_iff.mpr h, fault?_eq_none_iff.mpr (playable_of_perm h hperm),
    byPort_eq_of_perm h hperm, hname]

end Role
end Bellows
