import Mathlib.Data.List.Nodup
import Bellows.Proofs.Role.Timelines

/-! Playable roles: a role has no fault on a score exactly when it has between one and five parts,
the score has them all, and each drives a port of its own. -/
namespace Bellows.Role

variable {r : Role} {score : Score} {pace : Pace} {t : RoleTimelines} {fault : MappingFault}

/-- A role that can be played on a score. -/
structure Playable (r : Role) (score : Score) : Prop where
  members_ne_nil : r.members ≠ []
  length_le : r.members.length ≤ portCount
  contained : ∀ m ∈ r.members, score.contains m.part = true
  nodup : (r.members.map Member.port).Nodup

theorem missingFrom_eq_nil_iff :
    r.missingFrom score = [] ↔ ∀ m ∈ r.members, score.contains m.part = true := by
  simp [missingFrom, parts]

/-- No port is shared when each occurs once. -/
theorem sharedPort?_eq_none_iff :
    r.sharedPort? = none ↔ (r.members.map Member.port).Nodup := by
  rw [sharedPort?, List.min?_eq_none_iff, List.filter_eq_nil_iff, List.nodup_iff_count_le_one]
  constructor
  · intro hnone port
    by_cases hmem : port ∈ r.members.map Member.port
    · have := hnone port hmem
      simp only [decide_eq_true_eq] at this
      omega
    · rw [List.count_eq_zero_of_not_mem hmem]
      exact Nat.zero_le 1
  · intro hcount port _
    have := hcount port
    simp only [decide_eq_true_eq]
    omega

/-- The checks of a role refuse it exactly when it cannot be played. -/
theorem fault?_eq_none_iff : r.fault? score = none ↔ r.Playable score := by
  unfold fault?
  by_cases hnil : r.members = []
  · rw [if_pos (List.isEmpty_iff.mpr hnil)]
    exact ⟨fun h => (by cases h), fun h => (h.members_ne_nil hnil).elim⟩
  rw [if_neg (mt List.isEmpty_iff.mp hnil)]
  by_cases hlen : portCount < r.members.length
  · rw [if_pos hlen]
    exact ⟨fun h => (by cases h), fun h => absurd h.length_le (Nat.not_le.mpr hlen)⟩
  rw [if_neg hlen]
  by_cases hmissing : r.missingFrom score = []
  · rw [hmissing, if_neg (by simp), Option.map_eq_none_iff, sharedPort?_eq_none_iff]
    exact ⟨fun h => ⟨hnil, Nat.not_lt.mp hlen, missingFrom_eq_nil_iff.mp hmissing, h⟩,
      fun h => h.nodup⟩
  · rw [if_pos (by simpa using hmissing)]
    exact ⟨fun h => (by cases h), fun h => (hmissing (missingFrom_eq_nil_iff.mpr h.contained)).elim⟩

instance (r : Role) (score : Score) : Decidable (r.Playable score) :=
  decidable_of_iff _ fault?_eq_none_iff

/-- A fault names the role that it was found in. -/
theorem role?_of_fault? (h : r.fault? score = some fault) : fault.role? = some r.name := by
  unfold fault? at h
  split at h
  · cases h
    rfl
  split at h
  · cases h
    rfl
  split at h
  · cases h
    rfl
  obtain ⟨port, _, rfl⟩ := Option.map_eq_some_iff.mp h
  rfl

theorem fault?_of_timelines (h : r.timelines pace score = .error (.mapping fault)) :
    r.fault? score = some fault := by
  unfold timelines at h
  cases hf : r.fault? score with
  | some other =>
    rw [hf] at h
    cases h
    rfl
  | none =>
    rw [hf] at h
    cases hports : r.byPort.mapM (portTimeline pace score) with
    | error layout =>
      rw [hports] at h
      cases h
    | ok ports =>
      rw [hports] at h
      cases h

theorem playable_of_timelines (h : r.timelines pace score = .ok t) : r.Playable score :=
  fault?_eq_none_iff.mp (timelines_eq_ok h).1

/-- Only a role that can be played comes to be laid out. -/
theorem playable_of_timelines_eq_layout {layout : LayoutFault}
    (h : r.timelines pace score = .error (.layout layout)) : r.Playable score := by
  apply fault?_eq_none_iff.mp
  cases hf : r.fault? score with
  | none => rfl
  | some fault =>
    rw [timelines, hf] at h
    cases h

theorem map_port {members : List Member} {ports : List PortTimeline}
    (h : List.Forall₂ (Drives pace score) members ports) :
    ports.map PortTimeline.port = members.map Member.port := by
  induction h with
  | nil => rfl
  | cons hd _ ih => rw [List.map_cons, List.map_cons, hd.port, ih]

/-- The timelines of a role drive the ports of its members. -/
theorem ports_perm (h : r.timelines pace score = .ok t) :
    (t.ports.map PortTimeline.port).Perm (r.members.map Member.port) := by
  rw [map_port (timelines_eq_ok h).2.2]
  exact (List.mergeSort_perm _ _).map _

/-- No two timelines of a role drive the same port. -/
theorem nodup_ports (h : r.timelines pace score = .ok t) :
    (t.ports.map PortTimeline.port).Nodup :=
  (ports_perm h).nodup_iff.mpr (playable_of_timelines h).nodup

end Bellows.Role
