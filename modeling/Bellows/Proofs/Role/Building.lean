import Bellows.Proofs.Command.Merge
import Bellows.Proofs.Conversion.Endless
import Bellows.Proofs.Keyed

/-! Roles that are built from the parts of a score: a role is built exactly if it can be played and
each of its parts can be laid out, and one that cannot be played is refused for the first thing that
is wrong with it. -/
namespace Bellows

/-- The member that a timeline is that of. -/
def PortTimeline.member (p : PortTimeline) : Member := ⟨p.part, p.port⟩

namespace Role

variable {r : Role} {settings : Settings} {pace : Pace} {score : Score} {t : RoleTimelines}
  {fault : MappingFault} {port : Int}

/-- Two members or more drive a port. -/
def Shares (r : Role) (port : Int) : Prop := 2 ≤ (r.members.filter fun m => m.port = port).length

/-- Why a role is refused. Where several things are wrong with it, the one that comes first here is
the reason. -/
inductive Refused (r : Role) (score : Score) : MappingFault → Prop
  | noParts (hnil : r.members = []) : Refused r score (.noParts r.name)
  | tooManyParts (hmany : portCount < r.members.length) :
    Refused r score (.tooManyParts r.name (r.members.map Member.part))
  | missingParts {missing : List String} (hnil : r.members ≠ [])
    (hfew : r.members.length ≤ portCount)
    (hmissing : missing = (r.members.map Member.part).filter fun part => part ∉ score.keys)
    (hne : missing ≠ []) : Refused r score (.missingParts r.name missing)
  | sharedPort {port : Int} (hnil : r.members ≠ []) (hfew : r.members.length ≤ portCount)
    (hall : ∀ m ∈ r.members, m.part ∈ score.keys) (hshared : r.Shares port)
    (hleast : ∀ other, r.Shares other → port ≤ other) :
    Refused r score (.sharedPort r.name port
      ((r.members.filter fun m => m.port = port).map Member.part))

theorem missingFrom_eq (r : Role) (score : Score) :
    r.missingFrom score = (r.members.map Member.part).filter fun part => part ∉ score.keys := by
  apply List.filter_congr
  intro part _
  simp [← Keyed.contains_iff_mem_keys]

theorem count_port (r : Role) (port : Int) : (r.members.map Member.port).count port =
    (r.members.filter fun m => m.port = port).length := by
  rw [List.count_eq_countP, List.countP_map, List.countP_eq_length_filter]
  rfl

/-- The port that is reported is the smallest one that is shared. -/
theorem sharedPort?_eq_some_iff :
    r.sharedPort? = some port ↔ r.Shares port ∧ ∀ other, r.Shares other → port ≤ other := by
  have hmem : ∀ p, p ∈ (r.members.map Member.port).filter
      (fun p => 1 < (r.members.map Member.port).count p) ↔ r.Shares p := by
    intro p
    rw [List.mem_filter, decide_eq_true_eq, Shares, ← count_port]
    constructor
    · exact fun h => h.2
    · intro h
      exact ⟨List.count_pos_iff.mp (by omega), h⟩
  rw [sharedPort?, List.min?_eq_some_iff]
  simp only [hmem]

/-- The checks of a role find the first thing that is wrong with it. -/
theorem fault?_eq_some_iff : r.fault? score = some fault ↔ r.Refused score fault := by
  constructor
  · intro h
    unfold fault? at h
    split at h
    · next hnil =>
      cases h
      exact .noParts (List.isEmpty_iff.mp hnil)
    next hnil =>
    have hne : r.members ≠ [] := fun h => hnil (List.isEmpty_iff.mpr h)
    split at h
    · next hmany =>
      cases h
      exact .tooManyParts hmany
    next hmany =>
    have hfew : r.members.length ≤ portCount := Nat.le_of_not_lt hmany
    split at h
    · next hmissing =>
      cases h
      exact .missingParts hne hfew (missingFrom_eq r score) (by simpa using hmissing)
    next hmissing =>
    obtain ⟨port, hport, rfl⟩ := Option.map_eq_some_iff.mp h
    obtain ⟨hshared, hleast⟩ := sharedPort?_eq_some_iff.mp hport
    have hall : ∀ m ∈ r.members, m.part ∈ score.keys := by
      intro m hm
      apply Keyed.contains_iff_mem_keys.mp
      exact missingFrom_eq_nil_iff.mp (by simpa using hmissing) m hm
    exact .sharedPort hne hfew hall hshared hleast
  · intro h
    cases h with
    | noParts hnil => simp [fault?, hnil]
    | tooManyParts hmany =>
      have hnil : r.members ≠ [] := List.ne_nil_of_length_pos (Nat.zero_lt_of_lt hmany)
      simp [fault?, hnil, hmany, parts]
    | missingParts hnil hfew hmissing hne =>
      subst hmissing
      rw [← missingFrom_eq] at hne ⊢
      simp [fault?, hnil, Nat.not_lt.mpr hfew, hne]
    | sharedPort hnil hfew hall hshared hleast =>
      have hmissing : r.missingFrom score = [] :=
        missingFrom_eq_nil_iff.mpr fun m hm => Keyed.contains_iff_mem_keys.mpr (hall m hm)
      have hport := sharedPort?_eq_some_iff.mpr ⟨hshared, hleast⟩
      simp [fault?, hnil, Nat.not_lt.mpr hfew, hmissing, hport, partsAt]

/-- What a role is built into: one timeline for each of its members, in the order of the ports, each
with the events of its part. -/
structure Built (r : Role) (pace : Pace) (score : Score) (t : RoleTimelines) : Prop where
  role : t.role = r.name
  ascending : (t.ports.map PortTimeline.port).Pairwise (· < ·)
  rearranged : (t.ports.map PortTimeline.member).Perm r.members
  events : ∀ p ∈ t.ports, ∃ part, score.get? p.part = some part ∧
    pace.events part.measures = .ok p.events
  partFor : ∀ port part, t.partFor? port = some part ↔ ⟨part, port⟩ ∈ r.members

theorem map_member {members : List Member} {ports : List PortTimeline}
    (h : List.Forall₂ (Drives pace score) members ports) :
    ports.map PortTimeline.member = members := by
  induction h with
  | nil => rfl
  | @cons m p _ _ hd _ ih => rw [List.map_cons, ih, PortTimeline.member, hd.part, hd.port]

/-- The part of a port is that of the one member that drives it. -/
theorem partFor?_eq_some_iff {part : String} (hnodup : (t.ports.map PortTimeline.port).Nodup) :
    t.partFor? port = some part ↔ ⟨part, port⟩ ∈ t.ports.map PortTimeline.member := by
  rw [RoleTimelines.partFor?, Option.map_eq_some_iff, List.mem_map]
  constructor
  · rintro ⟨p, hp, rfl⟩
    have hport : p.port = port := by simpa using List.find?_some hp
    exact ⟨p, List.mem_of_find?_eq_some hp, by rw [PortTimeline.member, hport]⟩
  · rintro ⟨p, hp, hmember⟩
    cases hmember
    exact ⟨p, RoleTimelines.find?_of_nodup hnodup hp, rfl⟩

theorem built_of_timelines (h : r.timelines pace score = .ok t) : r.Built pace score t := by
  have hplay := playable_of_timelines h
  have hnodup := nodup_ports h
  obtain ⟨_, hrole, hall⟩ := timelines_eq_ok h
  have hperm : (t.ports.map PortTimeline.member).Perm r.members := by
    rw [map_member hall]
    exact List.mergeSort_perm _ _
  refine ⟨hrole, ?_, hperm, ?_, ?_⟩
  · -- No port is named twice, so that the order of the ports is strict.
    have hsorted : (t.ports.map PortTimeline.port).Pairwise (· ≤ ·) := by
      rw [map_port hall, List.pairwise_map]
      exact r.pairwise_byPort
    exact (hsorted.and hnodup).imp fun hle => Int.lt_iff_le_and_ne.mpr hle
  · intro p hp
    obtain ⟨m, hm, hd⟩ := exists_left_of_mem hall hp
    have hcontains := hplay.contained m (List.mem_mergeSort.mp hm)
    obtain ⟨part, hpart⟩ := Option.isSome_iff_exists.mp hcontains
    refine ⟨part, by rw [hd.part, hpart], ?_⟩
    have hevents := hd.events
    rwa [measuresOf, hpart] at hevents
  · intro port part
    rw [partFor?_eq_some_iff hnodup]
    exact hperm.mem_iff

/-- A role is built exactly if it can be played and all of its parts can be laid out. -/
theorem exists_timelines_iff : (∃ t, r.timelines pace score = .ok t) ↔
    r.Playable score ∧ ∀ m ∈ r.members, ∃ events,
      pace.events (measuresOf score m.part) = .ok events := by
  constructor
  · rintro ⟨t, h⟩
    refine ⟨playable_of_timelines h, ?_⟩
    intro m hm
    obtain ⟨p, _, hd⟩ := exists_right_of_mem (timelines_eq_ok h).2.2 (List.mem_mergeSort.mpr hm)
    exact ⟨p.events, hd.events⟩
  · rintro ⟨hplay, hevents⟩
    have hports : ∃ ports, r.byPort.mapM (portTimeline pace score) = .ok ports := by
      apply exists_mapM_eq_ok
      intro m hm
      obtain ⟨events, he⟩ := hevents m (List.mem_mergeSort.mp hm)
      exact ⟨⟨m.port, m.part, events⟩, portTimeline_of_drives ⟨rfl, rfl, he⟩⟩
    obtain ⟨ports, hok⟩ := hports
    exact ⟨⟨r.name, ports⟩, by rw [timelines, fault?_eq_none_iff.mpr hplay, hok]⟩

/-- What keeps a role from being played is what its timelines fail with. -/
theorem timelines_eq_mapping_iff :
    r.timelines pace score = .error (.mapping fault) ↔ r.Refused score fault := by
  rw [← fault?_eq_some_iff]
  constructor
  · exact fault?_of_timelines
  · intro h
    rw [timelines, h]

theorem exists_refused_iff : (∃ fault, r.Refused score fault) ↔ ¬ r.Playable score := by
  rw [← fault?_eq_none_iff, ← ne_eq, Option.ne_none_iff_exists']
  simp only [fault?_eq_some_iff]

/-- What becomes of a role. It is built exactly if it can be played and its parts can be laid out;
if it cannot be played, it is refused; and where time runs forwards, a part cannot be laid out
exactly if it has no finite end. -/
structure Decided (r : Role) (settings : Settings) (pace : Pace) (score : Score) : Prop where
  built_iff : (∃ t, r.timelines pace score = .ok t) ↔ r.Playable score ∧
    ∀ m ∈ r.members, ∃ events, pace.events (measuresOf score m.part) = .ok events
  built : ∀ t, r.timelines pace score = .ok t → r.Built pace score t
  refused_iff : (∃ fault, r.timelines pace score = .error (.mapping fault)) ↔ ¬ r.Playable score
  refused : ∀ fault, r.timelines pace score = .error (.mapping fault) ↔ r.Refused score fault
  unlaid : ∀ fault, r.timelines pace score = .error (.layout fault) → r.Playable score ∧
    ∃ m ∈ r.members, pace.events (measuresOf score m.part) = .error fault
  endless : score.Regular → ∀ fault, r.timelines pace score = .error (.layout fault) ↔
    fault = .tooLong ∧ r.Playable score ∧ ∃ m ∈ r.members, score.Endless settings.bpm m.part

/-- In a score in which time runs forwards only a part without a finite end is not laid out. -/
theorem timelines_eq_layout_iff {layout : LayoutFault} (hpace : settings.pace = .ok pace)
    (hscore : score.Regular) : r.timelines pace score = .error (.layout layout) ↔
      layout = .tooLong ∧ r.Playable score ∧
        ∃ m ∈ r.members, score.Endless settings.bpm m.part := by
  have htooLong : ∀ fault, r.timelines pace score = .error (.layout fault) → fault = .tooLong := by
    intro fault h
    obtain ⟨m, _, hevents⟩ := exists_of_timelines_eq_layout h
    apply Pace.eq_tooLong_of_events (Settings.tempo_of_pace hpace) ?_ hevents
    apply Pace.mul_ne_zero_of_regular settings.bpm_pos
    intro measure hmeasure
    exact regular_measuresOf hscore m.part hmeasure
  have hlong := Settings.exists_timelines_eq_layout_iff (r := r) hscore hpace
  constructor
  · intro h
    exact ⟨htooLong layout h, hlong.mp ⟨layout, h⟩⟩
  · rintro ⟨rfl, hendless⟩
    obtain ⟨fault, h⟩ := hlong.mpr hendless
    rwa [htooLong fault h] at h

/-- Every role is decided on every score. -/
theorem timelines_decided (hpace : settings.pace = .ok pace) (score : Score) (r : Role) :
    r.Decided settings pace score where
  built_iff := exists_timelines_iff
  built := fun _ => built_of_timelines
  refused_iff := by
    simp only [timelines_eq_mapping_iff]
    exact exists_refused_iff
  refused := fun _ => timelines_eq_mapping_iff
  unlaid := by
    intro fault h
    exact ⟨playable_of_timelines_eq_layout h, exists_of_timelines_eq_layout h⟩
  endless := fun hscore _ => timelines_eq_layout_iff hpace hscore

open Conversion in
/-- Two parts at ports of their own are built; of a role with all faults but the first two at once,
the parts that the score lacks are reported. -/
theorem timelines_decided_duet : Duet.settings.pace = .ok Duet.pace ∧
    (⟨"Lungs", [⟨"P1", 2⟩, ⟨"P2", 4⟩]⟩ : Role).Built Duet.pace Duet.score Duet.timelines ∧
    (⟨"Lungs", [⟨"P9", 2⟩, ⟨"P1", 2⟩, ⟨"P8", 3⟩]⟩ : Role).timelines Duet.pace Duet.score =
      .error (.mapping (.missingParts "Lungs" ["P9", "P8"])) := by
  have hbuilt := timelines_decided Duet.pace_eq Duet.score ⟨"Lungs", [⟨"P1", 2⟩, ⟨"P2", 4⟩]⟩
  have hrefused := timelines_decided Duet.pace_eq Duet.score
    ⟨"Lungs", [⟨"P9", 2⟩, ⟨"P1", 2⟩, ⟨"P8", 3⟩]⟩
  refine ⟨Duet.pace_eq, hbuilt.built _ Duet.timelines_eq, (hrefused.refused _).mpr ?_⟩
  exact .missingParts (List.cons_ne_nil _ _) (by decide) (by decide +kernel) (List.cons_ne_nil _ _)

/-- A part without notes. Its only measure divides the quarter note into nothing. -/
def undivided : Score := Keyed.ofList [("P1", ⟨"Low", [⟨1, ⟨4, 4⟩, 0, []⟩]⟩)]

open Conversion in
/-- A role that can be played and whose part ends at once is not built all the same. -/
theorem timelines_undivided : Duet.settings.pace = .ok Duet.pace ∧
    (⟨"Arm", [⟨"P1", 1⟩]⟩ : Role).Playable undivided ∧
    ¬ undivided.Endless Duet.settings.bpm "P1" ∧
    (⟨"Arm", [⟨"P1", 1⟩]⟩ : Role).timelines Duet.pace undivided =
      .error (.layout .noDivisions) := by
  have hlength : Layout.partLength Duet.settings.bpm (measuresOf undivided "P1") = 0 := by
    decide +kernel
  have hevents : Duet.pace.events (measuresOf undivided "P1") = .error .noDivisions := by
    decide +kernel
  have hsorted : byPort ⟨"Arm", [⟨"P1", 1⟩]⟩ = [⟨"P1", 1⟩] := List.mergeSort_singleton _
  have hport : portTimeline Duet.pace undivided ⟨"P1", 1⟩ = .error .noDivisions := by
    rw [portTimeline, hevents]
    rfl
  refine ⟨Duet.pace_eq, by decide +kernel, ?_, ?_⟩
  · rw [Score.Endless, hlength, not_le, Nat.cast_pos]
    decide +kernel
  · have hfault : fault? ⟨"Arm", [⟨"P1", 1⟩]⟩ undivided = none := by decide +kernel
    rw [timelines, hfault, hsorted, mapM_cons_of_error hport]

end Role
end Bellows
