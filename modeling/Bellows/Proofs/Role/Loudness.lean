import Bellows.Proofs.Event.Loudness
import Bellows.Proofs.Keyed
import Bellows.Proofs.Role.Matching

/-! Roles at another loudness: the same roles can be played, with the same timelines up to the
dynamics. -/
namespace Bellows

variable {R : Dynamic → Dynamic → Prop} {score score' : Score}

structure PortTimeline.Alike (R : Dynamic → Dynamic → Prop) (p p' : PortTimeline) : Prop where
  port : p.port = p'.port
  part : p.part = p'.part
  events : List.Forall₂ (Event.Alike R) p.events p'.events

structure RoleTimelines.Alike (R : Dynamic → Dynamic → Prop) (t t' : RoleTimelines) : Prop where
  role : t.role = t'.role
  ports : List.Forall₂ (PortTimeline.Alike R) t.ports t'.ports

namespace Score.Alike

variable (h : score.Alike R score')
include h

theorem rel_get? (part : String) :
    Option.Rel (Part.Alike R) (score.get? part) (score'.get? part) :=
  Keyed.rel_find? h part

/-- Both scores have the same parts. -/
theorem contains_eq (part : String) : score.contains part = score'.contains part :=
  isSome_eq_of_rel (h.rel_get? part)

theorem measuresOf (part : String) :
    List.Forall₂ (Measure.Alike R) (Role.measuresOf score part) (Role.measuresOf score' part) :=
  rel_getD (rel_map (h.rel_get? part) fun _ _ hp => hp.measures) .nil

theorem timelines (pace : Pace) (r : Role) : EndAlike (RoleTimelines.Alike R)
    (r.timelines pace score) (r.timelines pace score') := by
  have hmatched := Role.timelines_matched (r := r) h.contains_eq fun m _ =>
    pace.events_alike (h.measuresOf m.part)
  exact hmatched.imp fun _ _ ht =>
    ⟨ht.role, ht.ports.imp fun _ _ hp => ⟨hp.port, hp.part, hp.events⟩⟩

end Score.Alike

theorem RoleTimelines.Alike.matched {t t' : RoleTimelines} (h : t.Alike R t') :
    t.Matched (List.Forall₂ (Event.Alike R)) t' :=
  ⟨h.role, h.ports.imp fun _ _ hp => ⟨hp.port, hp.part, hp.events⟩⟩

end Bellows
