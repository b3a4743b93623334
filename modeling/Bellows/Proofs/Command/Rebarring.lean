import Bellows.Proofs.Command.Matching
import Bellows.Proofs.Command.Voices
import Bellows.Proofs.Event.Counting
import Bellows.Proofs.UpToOrder

/-! A role whose notes stand in other measures: it has the same commands, or the same conflict,
reported at other places in the score. -/
namespace Bellows

/-- The same side of a conflict, at another place in the score. -/
structure ConflictSite.Rebarred (s s' : ConflictSite) : Prop where
  port : s.port = s'.port
  part : s.part = s'.part
  action : s.action = s'.action

/-- The same conflict, with sites at other places in the score. -/
structure Conflict.Rebarred (c c' : Conflict) : Prop where
  role : c.role = c'.role
  time : c.time = c'.time
  sites : List.Forall₂ ConflictSite.Rebarred c.sites c'.sites

theorem Event.kindred_rebarred : Event.Kindred Event.Rebarred :=
  ⟨fun _ _ he => he.start, ⟨rfl, rfl, rfl⟩, fun _ _ he _ => ⟨rfl, he.action, he.dynamic⟩⟩

theorem Request.Matched.action_eq {r r' : Request} (h : Request.Matched Event.Rebarred r r') :
    r.action = r'.action := h.event.action

namespace Resolution

variable {requests requests' : List Request}
  (h : List.Forall₂ (Request.Matched Event.Rebarred) requests requests')
include h

theorem sites_rebarred (pair : Action × Action) :
    List.Forall₂ ConflictSite.Rebarred (sites requests pair) (sites requests' pair) := by
  unfold sites
  rw [List.forall₂_map_left_iff, List.forall₂_map_right_iff]
  refine (List.rel_filter (fun r r' hr => ?_) h).imp fun r r' hr => ⟨hr.port, ?_, hr.action_eq⟩
  · simp only [hr.action_eq]
  · rw [site, site, hr.part]

/-- Requests from other places are resolved into the same command or the same conflict. -/
theorem resolve_rebarred (curve : Curve) (role : String) (time : Binary64) :
    EndRelated (· = ·) Conflict.Rebarred (resolve curve role time requests)
      (resolve curve role time requests') := by
  have hvoices : requests.map Request.voice = requests'.map Request.voice :=
    map_eq_of_forall₂ h fun r r' hr => by
      rw [Request.voice, Request.voice, hr.action_eq, hr.event.dynamic]
  unfold resolve
  rw [← settle_eq_of_voices (.of_eq hvoices)]
  cases settle requests with
  | ok settled => exact .ok (command_eq_of_voices curve settled hvoices)
  | error pair => exact .error ⟨rfl, rfl, sites_rebarred h pair⟩

end Resolution

/-- Merged onto an axis, both roles have the same commands or the same first conflict. -/
theorem RoleTimelines.Matched.merge_rebarred {t t' : RoleTimelines} {ticks : List Binary64}
    (h : t.Matched (List.Forall₂ Event.Rebarred) t') (curve : Curve)
    (hticks : Axis.Ascending ticks) :
    EndRelated (· = ·) Conflict.Rebarred (t.merge curve ticks) (t'.merge curve ticks) := by
  have hlist : EndRelated (List.Forall₂ (· = ·)) Conflict.Rebarred (t.merge curve ticks)
      (t'.merge curve ticks) := by
    refine merge_related hticks hticks rfl fun k hk _ => ?_
    rw [← h.role]
    exact Resolution.resolve_rebarred (h.requestsAt Event.kindred_rebarred ticks k ticks[k])
      curve t.role ticks[k]
  simpa only [List.forall₂_eq_eq_eq] using hlist

end Bellows
