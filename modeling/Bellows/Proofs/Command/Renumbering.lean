import Bellows.Proofs.Axis.Ties
import Bellows.Proofs.Command.Safety
import Bellows.Proofs.Command.Voices
import Bellows.Proofs.Role.Renumbering

/-! A role with renumbered ports merged onto the same ticks: the pump does the same, each valve is
opened and closed under its new number, and conflicts are found at the same times. -/
namespace Bellows

variable {σ : Renumbering}

/-- The same command with each valve at its new port. -/
structure Command.Renumbered (σ : Renumbering) (c c' : Command) : Prop where
  action : c.action = c'.action
  intensity : c.intensity = c'.intensity
  opens : ∀ port ∈ RoleTimelines.devicePorts, c'.Opens (σ.port port) ↔ c.Opens port

def ConflictSite.renumber (σ : Renumbering) (s : ConflictSite) : ConflictSite :=
  { s with port := σ.port s.port }

/-- The same conflict with its sites at their new ports. -/
structure Conflict.Renumbered (σ : Renumbering) (c c' : Conflict) : Prop where
  role : c.role = c'.role
  time : c.time.same c'.time = true
  sites : (c.sites.map (ConflictSite.renumber σ)).Perm c'.sites

/-- The same request at a new port and another time. -/
def Request.renumber (σ : Renumbering) (time : Binary64) (r : Request) : Request :=
  ⟨σ.port r.port, r.part, r.event.at time⟩

namespace RoleTimelines.Renumbered

variable {t t' : RoleTimelines} {ticks ticks' : List Binary64} {port : Int}
  (h : t.Renumbered σ t')
include h

theorem nodup' : (t'.ports.map PortTimeline.port).Nodup := by
  have hports : (t.ports.map PortTimeline.port).map σ.port =
      (t.ports.map (PortTimeline.renumber σ)).map PortTimeline.port := by
    rw [List.map_map, List.map_map]
    rfl
  have hdevice : ∀ p ∈ t.ports.map PortTimeline.port, p ∈ devicePorts := by
    intro p hp
    obtain ⟨q, hq, rfl⟩ := List.mem_map.mp hp
    exact h.device q hq
  rw [← (h.ports.map PortTimeline.port).nodup_iff, ← hports, σ.nodup_map hdevice]
  exact h.nodup

/-- What is looked up at a new port is what was found at the old one. -/
theorem find?_eq (hport : port ∈ devicePorts) :
    (t'.ports.find? fun p => p.port = σ.port port) =
      (t.ports.find? fun p => p.port = port).map (PortTimeline.renumber σ) := by
  cases hfind : t.ports.find? fun p => p.port = port with
  | some p =>
    have hp := List.mem_of_find?_eq_some hfind
    obtain rfl : p.port = port := by simpa using List.find?_some hfind
    exact find?_of_nodup h.nodup' (h.ports.mem_iff.mp (List.mem_map_of_mem hp))
  | none =>
    -- a timeline found at the new port would be at the old one, since no two ports become one
    refine List.find?_eq_none.mpr fun q hq hqport => ?_
    obtain ⟨p, hp, rfl⟩ := List.mem_map.mp (h.ports.mem_iff.mpr hq)
    have hsame : p.port = port :=
      σ.injective (h.device p hp) hport (of_decide_eq_true hqport)
    exact List.find?_eq_none.mp hfind p hp (decide_eq_true hsame)

theorem partFor?_eq (hport : port ∈ devicePorts) :
    t'.partFor? (σ.port port) = t.partFor? port := by
  rw [partFor?, partFor?, h.find?_eq hport, Option.map_map]
  rfl

theorem heldBy_eq (hticks : Axis.SameTicks ticks ticks') (hport : port ∈ devicePorts) (k : Nat) :
    t'.heldBy ticks' (σ.port port) k = t.heldBy ticks port k := by
  rw [heldBy, heldBy, eventsFor?_of_nodup t' h.nodup', eventsFor?_of_nodup t h.nodup,
    h.find?_eq hport, Option.map_map, Axis.held_eq_of_sameTicks hticks]
  rfl

/-- The same is asked for, each at its new port. -/
theorem perm_requestsAt (hticks : Axis.SameTicks ticks ticks') (k : Nat) (tick tick' : Binary64) :
    (t'.requestsAt ticks' k tick').Perm
      ((t.requestsAt ticks k tick).map (Request.renumber σ tick')) := by
  have hmap : (t.requestsAt ticks k tick).map (Request.renumber σ tick') =
      (devicePorts.map σ.port).map
        fun port => ⟨port, t'.partFor? port, (t'.heldBy ticks' port k).at tick'⟩ := by
    rw [requestsAt, List.map_map, List.map_map]
    refine List.map_congr_left fun port hport => ?_
    simp only [Function.comp_apply, Request.renumber, h.partFor?_eq hport,
      h.heldBy_eq hticks hport]
    rfl
  rw [hmap]
  exact σ.perm.symm.map _

end RoleTimelines.Renumbered

namespace Resolution

variable {requests requests' : List Request} {curve : Curve} {role : String}
  {time time' : Binary64} (h : requests'.Perm (requests.map (Request.renumber σ time')))
include h

theorem voices_perm : (requests.map Request.voice).Perm (requests'.map Request.voice) := by
  refine List.Perm.trans (.of_eq ?_) (h.map Request.voice).symm
  rw [List.map_map]
  rfl

theorem sites_perm (pair : Action × Action) :
    ((sites requests pair).map (ConflictSite.renumber σ)).Perm (sites requests' pair) := by
  refine List.Perm.trans (.of_eq ?_) ((h.filter _).map site).symm
  rw [sites, List.filter_map, List.map_map, List.map_map]
  rfl

/-- Requests at new ports are resolved into the same command, or the same conflict. -/
theorem resolve_renumbered (hports : requests.map Request.port = RoleTimelines.devicePorts)
    (hports' : requests'.map Request.port = RoleTimelines.devicePorts)
    (htime : time.same time' = true) :
    EndRelated (Command.Renumbered σ) (Conflict.Renumbered σ) (resolve curve role time requests)
      (resolve curve role time' requests') := by
  have hvoices := voices_perm h
  unfold resolve
  rw [← settle_eq_of_voices hvoices]
  cases settle requests with
  | error pair => exact .error ⟨rfl, htime, sites_perm h pair⟩
  | ok settled =>
    have hintensity := congrArg Int.ofNat (intensity_eq_of_voices curve hvoices)
    refine .ok ⟨rfl, hintensity, fun port hport => ?_⟩
    rw [← hports] at hport
    obtain ⟨r, hr, rfl⟩ := List.mem_map.mp hport
    have hr' : r.renumber σ time' ∈ requests' := h.mem_iff.mpr (List.mem_map_of_mem hr)
    exact (opens_command hports' hr').trans (opens_command hports hr).symm

end Resolution

/-- Merged onto the same ticks, a renumbered role has the same commands at its new ports. -/
theorem RoleTimelines.Renumbered.merge {t t' : RoleTimelines} {ticks ticks' : List Binary64}
    (h : t.Renumbered σ t') (curve : Curve) (hticks : Axis.Ascending ticks)
    (hticks' : Axis.Ascending ticks') (hsame : Axis.SameTicks ticks ticks') :
    EndRelated (List.Forall₂ (Command.Renumbered σ)) (Conflict.Renumbered σ)
      (t.merge curve ticks) (t'.merge curve ticks') := by
  refine merge_related hticks hticks' hsame.length_eq fun k hk hk' => ?_
  rw [← h.role]
  exact Resolution.resolve_renumbered (h.perm_requestsAt hsame k ticks[k] ticks'[k])
    (t.ports_requestsAt ticks k _) (t'.ports_requestsAt ticks' k _) (hsame.get hk hk')

end Bellows
