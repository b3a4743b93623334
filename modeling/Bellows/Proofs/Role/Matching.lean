import Bellows.Command.Merge
import Bellows.Proofs.Role.Timelines
import Bellows.Proofs.SideBySide

/-! Roles that drive the same ports with the same parts, whatever the events of these are. -/
namespace Bellows

/-- Timelines of one part at one port, with related events. -/
structure PortTimeline.Matched (E : List Event → List Event → Prop) (p p' : PortTimeline) : Prop
    where
  port : p.port = p'.port
  part : p.part = p'.part
  events : E p.events p'.events

/-- Timelines of one role, with related events at each port. -/
structure RoleTimelines.Matched (E : List Event → List Event → Prop) (t t' : RoleTimelines) : Prop
    where
  role : t.role = t'.role
  ports : List.Forall₂ (PortTimeline.Matched E) t.ports t'.ports

variable {E : List Event → List Event → Prop} {pace : Pace} {score score' : Score}

namespace RoleTimelines.Matched

variable {t t' : RoleTimelines} (h : t.Matched E t')
include h

theorem partFor?_eq (port : Int) : t.partFor? port = t'.partFor? port := by
  have hfind : Option.Rel (PortTimeline.Matched E) (t.ports.find? fun p => p.port = port)
      (t'.ports.find? fun p => p.port = port) :=
    rel_find? h.ports fun p p' hp => by simp only [hp.port]
  exact map_eq_of_rel hfind fun _ _ hp => hp.part

theorem events (hnil : E [] []) (port : Int) :
    E ((t.eventsFor? port).getD []) ((t'.eventsFor? port).getD []) := by
  have hfind : Option.Rel (PortTimeline.Matched E) (t.ports.reverse.find? fun p => p.port = port)
      (t'.ports.reverse.find? fun p => p.port = port) :=
    rel_find? (List.rel_reverse h.ports) fun p p' hp => by simp only [hp.port]
  exact rel_getD (rel_map hfind fun _ _ hp => hp.events) hnil

end RoleTimelines.Matched

namespace Role

variable {r : Role}

/-- What keeps a role from being played is found in the names of the parts alone. -/
theorem fault?_eq_of_contains (r : Role)
    (hcontains : ∀ part, score.contains part = score'.contains part) :
    r.fault? score = r.fault? score' := by
  have hmissing : r.missingFrom score = r.missingFrom score' := by
    unfold missingFrom
    simp only [hcontains]
  unfold fault?
  rw [hmissing]

/-- Where the parts of a role are laid out alike in two scores, so is the role. -/
theorem timelines_matched (hcontains : ∀ part, score.contains part = score'.contains part)
    (hevents : ∀ m ∈ r.members, EndAlike E (pace.events (measuresOf score m.part))
      (pace.events (measuresOf score' m.part))) :
    EndAlike (RoleTimelines.Matched E) (r.timelines pace score) (r.timelines pace score') := by
  unfold timelines
  rw [← r.fault?_eq_of_contains hcontains]
  cases r.fault? score with
  | some fault => exact .error _
  | none =>
    have hports : EndAlike (List.Forall₂ (PortTimeline.Matched E))
        (r.byPort.mapM (portTimeline pace score)) (r.byPort.mapM (portTimeline pace score')) :=
      .mapM (List.forall₂_same.mpr fun m hm =>
        (hevents m (List.mem_mergeSort.mp hm)).bind fun _ _ hm => .ok ⟨rfl, rfl, hm⟩)
    generalize r.byPort.mapM (portTimeline pace score) = ports,
      r.byPort.mapM (portTimeline pace score') = ports' at hports ⊢
    cases hports with
    | ok hall => exact .ok ⟨rfl, hall⟩
    | error fault => exact .error _

end Role

/-- Whatever is common to the events of the parts of a role in two scores is common to its
timelines. -/
theorem Role.matched_of_timelines {r : Role} {t t' : RoleTimelines}
    (hevents : ∀ m ∈ r.members, ∀ events events',
      pace.events (measuresOf score m.part) = .ok events →
        pace.events (measuresOf score' m.part) = .ok events' → E events events')
    (h : r.timelines pace score = .ok t) (h' : r.timelines pace score' = .ok t') :
    t.Matched E t' := by
  obtain ⟨_, hrole, hall⟩ := timelines_eq_ok h
  obtain ⟨_, hrole', hall'⟩ := timelines_eq_ok h'
  refine ⟨hrole.trans hrole'.symm, forall₂_of_common hall hall' fun m hm p p' hd hd' => ?_⟩
  exact ⟨hd.port.trans hd'.port.symm, hd.part.trans hd'.part.symm,
    hevents m (List.mem_mergeSort.mp hm) _ _ hd.events hd'.events⟩

end Bellows
