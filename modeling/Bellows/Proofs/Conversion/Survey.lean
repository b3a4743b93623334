import Bellows.Conversion
import Bellows.Proofs.Role.Playable

/-! The survey of the roles of a conversion: those that can be played with their timelines, the
others with what keeps them from it, and no role in both places. -/
namespace Bellows

namespace Conversion

variable {pace : Pace} {score : Score} {roles : List Role} {s : Survey}

/-- What a survey finds about some roles. -/
structure Surveyed (pace : Pace) (score : Score) (roles : List Role) (s : Survey) : Prop where
  playable : List.Forall₂ (fun r t => r.timelines pace score = .ok t)
    (roles.filter fun r => r.Playable score) s.playable
  unplayable : List.Forall₂ (fun r f => r.fault? score = some f)
    (roles.filter fun r => ¬ r.Playable score) s.unplayable

/-- Each role is found on its own, whatever becomes of the others. -/
theorem surveyed_of_survey (h : survey pace score roles = .ok s) :
    Surveyed pace score roles s := by
  induction roles generalizing s with
  | nil =>
    cases h
    exact ⟨.nil, .nil⟩
  | cons r rs ih =>
    unfold survey at h
    cases ht : r.timelines pace score with
    | error fault =>
      rw [ht] at h
      cases fault with
      | layout fault => cases h
      | mapping fault =>
        obtain ⟨rest, hsurvey, hrest⟩ := exists_of_bind_eq_ok h
        cases hrest
        have hfault := Role.fault?_of_timelines ht
        have hplay : ¬ r.Playable score := fun hp => by
          rw [Role.fault?_eq_none_iff.mpr hp] at hfault
          cases hfault
        refine ⟨?_, ?_⟩
        · rw [List.filter_cons_of_neg (by simpa using hplay)]
          exact (ih hsurvey).playable
        · rw [List.filter_cons_of_pos (by simpa using hplay)]
          exact .cons hfault (ih hsurvey).unplayable
    | ok t =>
      rw [ht] at h
      obtain ⟨rest, hsurvey, hrest⟩ := exists_of_bind_eq_ok h
      cases hrest
      have hplay := Role.playable_of_timelines ht
      refine ⟨?_, ?_⟩
      · rw [List.filter_cons_of_pos (by simpa using hplay)]
        exact .cons ht (ih hsurvey).playable
      · rw [List.filter_cons_of_neg (by simpa using hplay)]
        exact (ih hsurvey).unplayable

/-- What ends a survey is a part of one of the roles. -/
theorem exists_of_survey_eq_error {fault : LayoutFault}
    (h : survey pace score roles = .error fault) :
    ∃ r ∈ roles, r.timelines pace score = .error (.layout fault) := by
  induction roles with
  | nil => cases h
  | cons r rs ih =>
    unfold survey at h
    cases ht : r.timelines pace score with
    | error f =>
      rw [ht] at h
      cases f with
      | layout f =>
        cases h
        exact ⟨r, List.mem_cons_self, ht⟩
      | mapping f =>
        obtain ⟨q, hq, hfault⟩ := ih (eq_error_of_bind h)
        exact ⟨q, List.mem_cons_of_mem _ hq, hfault⟩
    | ok t =>
      rw [ht] at h
      obtain ⟨q, hq, hfault⟩ := ih (eq_error_of_bind h)
      exact ⟨q, List.mem_cons_of_mem _ hq, hfault⟩

/-- A survey without unplayable roles has the timelines of all roles. -/
theorem forall₂_of_survey (h : survey pace score roles = .ok s) (hs : s.unplayable = []) :
    List.Forall₂ (fun r t => r.timelines pace score = .ok t) roles s.playable := by
  obtain ⟨hplay, hun⟩ := surveyed_of_survey h
  rw [hs, List.forall₂_nil_right_iff] at hun
  have hall : ∀ r ∈ roles, r.Playable score := by
    intro r hr
    have := List.filter_eq_nil_iff.mp hun r hr
    simpa using this
  rwa [List.filter_eq_self.mpr fun r hr => by simpa using hall r hr] at hplay

/-- Roles that all have timelines are surveyed without a fault. -/
theorem survey_eq_ok {ts : List RoleTimelines}
    (h : List.Forall₂ (fun r t => r.timelines pace score = .ok t) roles ts) :
    survey pace score roles = .ok ⟨ts, []⟩ := by
  induction h with
  | nil => rfl
  | cons ht _ ih =>
    rw [survey, ht, ih]
    rfl

end Conversion
end Bellows
