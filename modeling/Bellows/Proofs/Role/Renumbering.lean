import Bellows.Command.Merge
import Bellows.Proofs.Role.Reordering

/-! The ports of a role renumbered. The role keeps its parts and their events, each at the new
number of its port, and it can be played exactly if it could before. -/
namespace Bellows

/-- New numbers for the ports of a device. -/
structure Renumbering where
  port : Int → Int
  perm : (RoleTimelines.devicePorts.map port).Perm RoleTimelines.devicePorts

namespace Renumbering

variable (σ : Renumbering) {p q : Int}

theorem mem_devicePorts (hp : p ∈ RoleTimelines.devicePorts) :
    σ.port p ∈ RoleTimelines.devicePorts :=
  σ.perm.mem_iff.mp (List.mem_map_of_mem hp)

theorem injective (hp : p ∈ RoleTimelines.devicePorts) (hq : q ∈ RoleTimelines.devicePorts)
    (h : σ.port p = σ.port q) : p = q := by
  have hnodup : (RoleTimelines.devicePorts.map σ.port).Nodup := σ.perm.nodup_iff.mpr (by decide)
  exact List.inj_on_of_nodup_map hnodup hp hq h

theorem nodup_map {ports : List Int} (hports : ∀ p ∈ ports, p ∈ RoleTimelines.devicePorts) :
    (ports.map σ.port).Nodup ↔ ports.Nodup := by
  refine ⟨List.Nodup.of_map σ.port, fun h => List.Nodup.map_on (fun p hp q hq => ?_) h⟩
  exact σ.injective (hports p hp) (hports q hq)

end Renumbering

theorem mem_devicePorts_iff {port : Int} :
    port ∈ RoleTimelines.devicePorts ↔ 1 ≤ port ∧ port ≤ portCount := by
  unfold RoleTimelines.devicePorts portCount
  simp only [List.mem_cons, List.not_mem_nil, or_false]
  omega

/-- The assignments of a role get new ports. -/
def Assignment.renumber (σ : Renumbering) (role : String) (a : Assignment) : Assignment :=
  if a.role = role then
    ⟨a.role, σ.port a.port, a.role_ne_empty,
      mem_devicePorts_iff.mp (σ.mem_devicePorts (mem_devicePorts_iff.mpr a.port_mem))⟩
  else a

def Settings.renumber (settings : Settings) (σ : Renumbering) (role : String) : Settings :=
  { settings with assignments := settings.assignments.map (Assignment.renumber σ role) }

def Member.renumber (σ : Renumbering) (m : Member) : Member := ⟨m.part, σ.port m.port⟩

def PortTimeline.renumber (σ : Renumbering) (p : PortTimeline) : PortTimeline :=
  ⟨σ.port p.port, p.part, p.events⟩

/-- The same timelines at new ports. -/
structure RoleTimelines.Renumbered (σ : Renumbering) (t t' : RoleTimelines) : Prop where
  role : t.role = t'.role
  ports : (t.ports.map (PortTimeline.renumber σ)).Perm t'.ports
  nodup : (t.ports.map PortTimeline.port).Nodup
  device : ∀ p ∈ t.ports, p.port ∈ RoleTimelines.devicePorts

/-- The same fault, but where two parts share a port, another such port may be the one that is
named. -/
inductive MappingFault.Renumbered : MappingFault → MappingFault → Prop
  | same (fault : MappingFault) : Renumbered fault fault
  | sharedPort (role : String) (port port' : Int) (parts parts' : List String) :
    Renumbered (.sharedPort role port parts) (.sharedPort role port' parts')

namespace Settings

variable {settings : Settings} {σ : Renumbering} {role : String} {r r' : Role} {m : Member}

theorem role_renumber (σ : Renumbering) (role : String) (a : Assignment) :
    (a.renumber σ role).role = a.role := by
  unfold Assignment.renumber
  split <;> rfl

theorem perm_names_renumber (settings : Settings) (σ : Renumbering) (role : String) :
    (settings.roles.map Role.name).Perm ((settings.renumber σ role).roles.map Role.name) := by
  refine (List.perm_ext_iff_of_nodup settings.nodup_roles
    (settings.renumber σ role).nodup_roles).mpr fun name => ?_
  rw [mem_names_iff, mem_names_iff]
  simp [renumber, Keyed.map, role_renumber]

/-- The role has its members at their new ports, the others have theirs at the old ones. -/
theorem members_renumber (hr : r ∈ settings.roles) (hr' : r' ∈ (settings.renumber σ role).roles)
    (hname : r.name = r'.name) : r'.members =
      if r.name = role then r.members.map (Member.renumber σ) else r.members := by
  have hkeep : ((settings.renumber σ role).assignments.entries.filter
      fun a => a.2.role = r.name) =
        (settings.assignments.entries.filter fun a => a.2.role = r.name).map
          fun a => (a.1, a.2.renumber σ role) := by
    simp only [renumber, Keyed.map, List.filter_map, Function.comp_def, role_renumber]
  have hrole : ∀ a ∈ settings.assignments.entries.filter fun a => a.2.role = r.name,
      a.2.role = r.name := fun a ha => of_decide_eq_true (List.mem_filter.mp ha).2
  rw [members_eq hr, members_eq hr', ← hname, hkeep, List.map_map]
  split
  · next h =>
    rw [List.map_map]
    refine List.map_congr_left fun a ha => ?_
    simp only [Function.comp_apply, Assignment.renumber, (hrole a ha).trans h, if_true]
    rfl
  · next h =>
    refine List.map_congr_left fun a ha => ?_
    simp only [Function.comp_apply, Assignment.renumber, hrole a ha, h, if_false]

theorem mem_devicePorts_of_member (hr : r ∈ settings.roles) (hm : m ∈ r.members) :
    m.port ∈ RoleTimelines.devicePorts := by
  obtain ⟨a, _, _, hport⟩ := exists_assignment hr hm
  exact mem_devicePorts_iff.mpr (hport ▸ a.port_mem)

end Settings

namespace Role

variable {r r' : Role} {σ : Renumbering} {score : Score} {pace : Pace}

theorem portTimeline_renumber (σ : Renumbering) (pace : Pace) (score : Score) (m : Member) :
    portTimeline pace score (m.renumber σ) =
      (portTimeline pace score m).map (PortTimeline.renumber σ) := by
  unfold portTimeline Member.renumber
  cases pace.events (measuresOf score m.part) <;> rfl

/-- Renumbered members have the renumbered timelines. -/
theorem mapM_renumber (σ : Renumbering) (pace : Pace) (score : Score) (members : List Member) :
    (members.map (Member.renumber σ)).mapM (portTimeline pace score) =
      (members.mapM (portTimeline pace score)).map (List.map (PortTimeline.renumber σ)) := by
  induction members with
  | nil => rfl
  | cons m ms ih =>
    have hm := portTimeline_renumber σ pace score m
    rw [List.map_cons]
    cases h : portTimeline pace score m with
    | error fault =>
      rw [h] at hm
      rw [mapM_cons_of_error h, mapM_cons_of_error hm]
      rfl
    | ok p =>
      rw [h] at hm
      rw [mapM_cons_of_ok h, mapM_cons_of_ok hm, ih]
      cases ms.mapM (portTimeline pace score) <;> rfl

theorem perm_byPort (hmembers : r'.members = r.members.map (Member.renumber σ)) :
    (r.byPort.map (Member.renumber σ)).Perm r'.byPort := by
  refine ((List.mergeSort_perm r.members _).map _).trans ?_
  rw [← hmembers]
  exact (List.mergeSort_perm r'.members _).symm

section

variable (hname : r.name = r'.name) (hmembers : r'.members = r.members.map (Member.renumber σ))
  (hdevice : ∀ m ∈ r.members, m.port ∈ RoleTimelines.devicePorts)
include hname hmembers hdevice

/-- What keeps a role from being played does not depend on the numbers of its ports. -/
theorem fault?_renumbered :
    Option.Rel MappingFault.Renumbered (r.fault? score) (r'.fault? score) := by
  have hparts : r'.parts = r.parts := by
    rw [parts, hmembers, List.map_map]
    rfl
  have hmissing : r'.missingFrom score = r.missingFrom score := by
    rw [missingFrom, missingFrom, hparts]
  have hempty : r'.members.isEmpty = r.members.isEmpty := by
    rw [hmembers, List.isEmpty_map]
  have hlength : r'.members.length = r.members.length := by
    rw [hmembers, List.length_map]
  have hports : (r.members.map Member.port).Nodup ↔ (r'.members.map Member.port).Nodup := by
    have hmap : r'.members.map Member.port = (r.members.map Member.port).map σ.port := by
      rw [hmembers, List.map_map, List.map_map]
      rfl
    rw [hmap, σ.nodup_map fun p hp => ?_]
    obtain ⟨m, hm, rfl⟩ := List.mem_map.mp hp
    exact hdevice m hm
  unfold fault?
  rw [hempty, hlength, hmissing, hparts, ← hname]
  split
  · exact .some (.same _)
  split
  · exact .some (.same _)
  split
  · exact .some (.same _)
  rw [← sharedPort?_eq_none_iff, ← sharedPort?_eq_none_iff] at hports
  cases hs : r.sharedPort? with
  | none =>
    rw [hports.mp hs]
    exact .none
  | some port =>
    cases hs' : r'.sharedPort? with
    | none => cases hs.symm.trans (hports.mpr hs')
    | some port' => exact .some (.sharedPort _ port port' _ _)

/-- The timelines of the role are the same, each at its new port. -/
theorem timelines_renumbered : TimelinesRelated (RoleTimelines.Renumbered σ)
    MappingFault.Renumbered (r.timelines pace score) (r'.timelines pace score) := by
  have hrel : Option.Rel MappingFault.Renumbered (r.fault? score) (r'.fault? score) :=
    fault?_renumbered hname hmembers hdevice
  have hmap := mapM_renumber σ pace score r.byPort
  have hnodup (t : RoleTimelines) : r.timelines pace score = .ok t →
      (t.ports.map PortTimeline.port).Nodup := nodup_ports
  have hmember (t : RoleTimelines) (h : r.timelines pace score = .ok t) :
      ∀ p ∈ t.ports, p.port ∈ RoleTimelines.devicePorts := by
    intro p hp
    obtain ⟨m, hm, hd⟩ := exists_member h hp
    exact hd.port ▸ hdevice m hm
  unfold timelines at hnodup hmember ⊢
  generalize r.fault? score = fault, r'.fault? score = fault' at hrel hnodup hmember ⊢
  cases hrel with
  | some hff => exact .mapping hff
  | none =>
    cases hports : r.byPort.mapM (portTimeline pace score) with
    | ok ports =>
      rw [hports] at hmap hnodup hmember
      obtain ⟨ports', hports', hperm⟩ := exists_mapM_eq_ok_of_perm (perm_byPort hmembers) hmap
      rw [hports']
      exact .ok ⟨hname, hperm, hnodup _ rfl, hmember _ rfl⟩
    | error f =>
      -- in another order another part may fail first, but some part does
      cases hports' : r'.byPort.mapM (portTimeline pace score) with
      | error f' => exact .layout f f'
      | ok ports' =>
        obtain ⟨_, hok, _⟩ := exists_mapM_eq_ok_of_perm (perm_byPort hmembers).symm hports'
        rw [hports] at hmap
        cases hok.symm.trans hmap

end

end Role
end Bellows
