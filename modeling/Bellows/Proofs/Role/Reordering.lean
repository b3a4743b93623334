import Bellows.Proofs.Role.Restriction
import Bellows.Proofs.UpToOrder

/-! Roles of the same assignments in another order: the same roles with the same members, which can
be played on the same scores and otherwise have the same faults. -/
namespace Bellows

/-- Settings with the same assignments in another order. -/
structure Settings.Reordered (settings settings' : Settings) : Prop where
  bpm : settings.bpm = settings'.bpm
  curve : settings.curve = settings'.curve
  step : settings.step = settings'.step
  assignments : settings.assignments.entries.Perm settings'.assignments.entries

/-- Scores with the same mapped parts, whatever other parts they have and in whatever order. -/
def Score.AgreesOn (score score' : Score) (parts : List String) : Prop :=
  ∀ part ∈ parts, score.get? part = score'.get? part

/-- The same fault of a role, with the parts that are to blame in another order. -/
inductive MappingFault.Reordered : MappingFault → MappingFault → Prop
  | noParts (role : String) : Reordered (.noParts role) (.noParts role)
  | tooManyParts (role : String) {parts parts' : List String} (h : parts.Perm parts') :
    Reordered (.tooManyParts role parts) (.tooManyParts role parts')
  | missingParts (role : String) {parts parts' : List String} (h : parts.Perm parts') :
    Reordered (.missingParts role parts) (.missingParts role parts')
  | sharedPort (role : String) (port : Int) {parts parts' : List String} (h : parts.Perm parts') :
    Reordered (.sharedPort role port parts) (.sharedPort role port parts')

/-- Timelines that end in related ways: related themselves, or failing both in the mapping or both
in the layout. -/
inductive TimelinesRelated (T : RoleTimelines → RoleTimelines → Prop)
    (F : MappingFault → MappingFault → Prop) :
    Except TimelineFault RoleTimelines → Except TimelineFault RoleTimelines → Prop
  | ok {t t' : RoleTimelines} (h : T t t') : TimelinesRelated T F (.ok t) (.ok t')
  | mapping {f f' : MappingFault} (h : F f f') :
    TimelinesRelated T F (.error (.mapping f)) (.error (.mapping f'))
  | layout (f f' : LayoutFault) : TimelinesRelated T F (.error (.layout f)) (.error (.layout f'))

namespace TimelinesRelated

variable {T T' : RoleTimelines → RoleTimelines → Prop} {F F' : MappingFault → MappingFault → Prop}
  {x y : Except TimelineFault RoleTimelines}

theorem self (hT : ∀ t, x = .ok t → T t t) (hF : ∀ f, x = .error (.mapping f) → F f f) :
    TimelinesRelated T F x x := by
  cases x with
  | ok t => exact .ok (hT t rfl)
  | error fault =>
    cases fault with
    | mapping f => exact .mapping (hF f rfl)
    | layout f => exact .layout f f

theorem imp (h : TimelinesRelated T F x y) (hT : ∀ t t', x = .ok t → T t t' → T' t t')
    (hF : ∀ f f', x = .error (.mapping f) → F f f' → F' f f') : TimelinesRelated T' F' x y := by
  cases h with
  | ok h => exact .ok (hT _ _ rfl h)
  | mapping h => exact .mapping (hF _ _ rfl h)
  | layout f f' => exact .layout f f'

/-- Timelines that end alike fail for the same reason. -/
theorem of_endAlike (h : EndAlike T x y) : TimelinesRelated T (· = ·) x y := by
  cases h with
  | ok h => exact .ok h
  | error fault =>
    cases fault with
    | mapping f => exact .mapping rfl
    | layout f => exact .layout f f

end TimelinesRelated

/-- The least of some numbers does not depend on their order. -/
theorem min?_eq_of_perm {l l' : List Int} (h : l.Perm l') : l.min? = l'.min? := by
  cases hmin : l'.min? with
  | none =>
    rw [List.min?_eq_none_iff] at hmin ⊢
    rw [hmin] at h
    exact h.eq_nil
  | some m =>
    rw [List.min?_eq_some_iff] at hmin ⊢
    exact ⟨h.mem_iff.mpr hmin.1, fun n hn => hmin.2 n (h.mem_iff.mp hn)⟩

namespace Settings

variable {settings settings' : Settings}

namespace Reordered

variable (h : settings.Reordered settings')
include h

theorem perm_names : (settings.roles.map Role.name).Perm (settings'.roles.map Role.name) := by
  refine (List.perm_ext_iff_of_nodup settings.nodup_roles settings'.nodup_roles).mpr fun name => ?_
  rw [mem_names_iff, mem_names_iff]
  simp only [h.assignments.mem_iff]

theorem perm_members {r r' : Role} (hr : r ∈ settings.roles) (hr' : r' ∈ settings'.roles)
    (hname : r.name = r'.name) : r.members.Perm r'.members := by
  rw [members_eq hr, members_eq hr', hname]
  exact (h.assignments.filter _).map _

end Reordered

end Settings

namespace Role

variable {r r' : Role} {score score' : Score} {pace : Pace}

/-- A role that cannot be laid out has a part that cannot. -/
theorem exists_of_timelines_eq_layout {fault : LayoutFault}
    (h : r.timelines pace score = .error (.layout fault)) :
    ∃ m ∈ r.members, pace.events (measuresOf score m.part) = .error fault := by
  unfold timelines at h
  cases hf : r.fault? score with
  | some f =>
    rw [hf] at h
    cases h
  | none =>
    rw [hf] at h
    cases hports : r.byPort.mapM (portTimeline pace score) with
    | ok ports =>
      rw [hports] at h
      cases h
    | error f =>
      rw [hports] at h
      cases h
      obtain ⟨m, hm, hmf⟩ := exists_of_mapM_eq_error hports
      exact ⟨m, List.mem_mergeSort.mp hm, eq_error_of_bind hmf⟩

theorem sharedPort?_eq_of_perm (hperm : r.members.Perm r'.members) :
    r.sharedPort? = r'.sharedPort? := by
  have hports : (r.members.map Member.port).Perm (r'.members.map Member.port) :=
    hperm.map Member.port
  simp only [sharedPort?, hports.count_eq]
  exact min?_eq_of_perm (hports.filter _)

theorem perm_missingFrom (hperm : r.members.Perm r'.members)
    (hscore : score.AgreesOn score' r.parts) :
    (r.missingFrom score).Perm (r'.missingFrom score') := by
  have hmissing : r.missingFrom score = r.missingFrom score' := by
    refine List.filter_congr fun part hpart => ?_
    rw [Keyed.contains, Keyed.contains, hscore part hpart]
  rw [hmissing]
  exact (hperm.map Member.part).filter _

section

variable (hname : r.name = r'.name) (hperm : r.members.Perm r'.members)
  (hscore : score.AgreesOn score' r.parts)
include hname hperm hscore

/-- What keeps a role from being played keeps it from being played in another order. -/
theorem fault?_reordered :
    Option.Rel MappingFault.Reordered (r.fault? score) (r'.fault? score') := by
  have hparts : r.parts.Perm r'.parts := hperm.map Member.part
  have hmissing := perm_missingFrom hperm hscore
  have hempty : r.members.isEmpty = r'.members.isEmpty := by
    rw [Bool.eq_iff_iff, List.isEmpty_iff_length_eq_zero, List.isEmpty_iff_length_eq_zero,
      hperm.length_eq]
  have hnone : (r.missingFrom score).isEmpty = (r'.missingFrom score').isEmpty := by
    rw [Bool.eq_iff_iff, List.isEmpty_iff_length_eq_zero, List.isEmpty_iff_length_eq_zero,
      hmissing.length_eq]
  unfold fault?
  rw [← hempty, ← hperm.length_eq, ← hnone, ← sharedPort?_eq_of_perm hperm, ← hname]
  split
  · exact .some (.noParts _)
  split
  · exact .some (.tooManyParts _ hparts)
  split
  · exact .some (.missingParts _ hmissing)
  cases r.sharedPort? with
  | none => exact .none
  | some port => exact .some (.sharedPort _ port ((hperm.filter _).map Member.part))

/-- A role that can be played has the same timelines with its members in another order. -/
theorem timelines_eq_of_agreesOn (hplay : r.Playable score) :
    r'.timelines pace score' = r.timelines pace score := by
  have hplay' : r.Playable score' := by
    refine ⟨hplay.members_ne_nil, hplay.length_le, fun m hm => ?_, hplay.nodup⟩
    rw [Keyed.contains, ← hscore m.part (List.mem_map_of_mem hm)]
    exact hplay.contained m hm
  have hports : r.byPort.mapM (portTimeline pace score') =
      r.byPort.mapM (portTimeline pace score) := by
    refine mapM_congr fun m hm => ?_
    have hpart : m.part ∈ r.parts := List.mem_map_of_mem (List.mem_mergeSort.mp hm)
    rw [portTimeline, portTimeline, measuresOf, measuresOf, hscore m.part hpart]
  rw [timelines_eq_of_perm hplay' hname.symm hperm, timelines, timelines,
    fault?_eq_none_iff.mpr hplay', fault?_eq_none_iff.mpr hplay, hports]

end

end Role

namespace Settings.Reordered

variable {settings settings' : Settings} {score score' : Score} (h : settings.Reordered settings')
  (hscore : score.AgreesOn score' settings.assignments.keys)
include h hscore

/-- Corresponding roles have the same timelines, or the same fault. -/
theorem timelinesRelated {r r' : Role} (hr : r ∈ settings.roles) (hr' : r' ∈ settings'.roles)
    (hname : r.name = r'.name) (pace : Pace) :
    TimelinesRelated (· = ·) MappingFault.Reordered (r.timelines pace score)
      (r'.timelines pace score') := by
  have hperm := h.perm_members hr hr' hname
  have hparts : score.AgreesOn score' r.parts := by
    intro part hpart
    obtain ⟨m, hm, rfl⟩ := List.mem_map.mp hpart
    exact hscore m.part (mem_keys hr hm)
  by_cases hplay : r.Playable score
  · rw [Role.timelines_eq_of_agreesOn hname hperm hparts hplay]
    refine .self (fun _ _ => rfl) fun f hf => ?_
    cases (Role.fault?_of_timelines hf).symm.trans (Role.fault?_eq_none_iff.mpr hplay)
  · have hfault := Role.fault?_reordered hname hperm hparts
    unfold Role.timelines
    generalize hf : r.fault? score = fault, r'.fault? score' = fault' at hfault
    cases hfault with
    | none => exact (hplay (Role.fault?_eq_none_iff.mp hf)).elim
    | some hff => exact .mapping hff

end Settings.Reordered

end Bellows
