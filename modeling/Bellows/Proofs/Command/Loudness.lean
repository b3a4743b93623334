import Bellows.Proofs.Command.Matching
import Bellows.Proofs.Role.Loudness

/-! Commands at another loudness: the pump and the valves are decided by the actions alone, and the
intensity grows with the strengths of what is played. -/
namespace Bellows

variable {R : Dynamic → Dynamic → Prop} {Q : Int → Int → Prop} {curve curve' : Curve}

/-- The same request, up to the dynamics of what pumps air in. -/
structure Request.Alike (R : Dynamic → Dynamic → Prop) (r r' : Request) : Prop where
  port : r.port = r'.port
  part : r.part = r'.part
  event : r.event.Alike R r'.event

theorem Request.Alike.action {r r' : Request} (h : r.Alike R r') : r.action = r'.action :=
  h.event.action

/-- Commands with the same pump action and the same valves, and with related intensities. -/
structure Command.Alike (Q : Int → Int → Prop) (c c' : Command) : Prop where
  action : c.action = c'.action
  valves : c.valves = c'.valves
  intensity : Q c.intensity c'.intensity

theorem Event.kindred_alike (R : Dynamic → Dynamic → Prop) : Event.Kindred (Event.Alike R) :=
  ⟨fun _ _ he => he.start, .idle, fun _ _ he => he.at⟩

namespace Resolution

variable {requests requests' : List Request}
  (h : List.Forall₂ (Request.Alike R) requests requests')
include h

theorem settle_eq_of_alike : settle requests = settle requests' := by
  have hasked : asked requests = asked requests' :=
    map_eq_of_forall₂ h fun _ _ hr => hr.action
  have hasks : asks requests = asks requests' := by
    funext a
    rw [Bool.eq_iff_iff, asks_iff, asks_iff, hasked]
  unfold settle
  rw [hasks]

theorem sites_eq_of_alike (pair : Action × Action) :
    sites requests pair = sites requests' pair := by
  unfold sites
  refine map_eq_of_forall₂ (List.rel_filter (fun r r' hr => ?_) h) fun r r' hr => ?_
  · simp only [hr.action]
  · rw [site, site, hr.port, hr.part, hr.event.measure, hr.event.note, hr.action]

/-- Requests are resolved into alike commands, or into the same conflict. -/
theorem resolve_alike (role : String) (time : Binary64)
    (hQ : Q (intensity curve requests) (intensity curve' requests')) :
    EndAlike (Command.Alike Q) (resolve curve role time requests)
      (resolve curve' role time requests') := by
  unfold resolve
  rw [← settle_eq_of_alike h]
  cases settle requests with
  | ok settled =>
    have hvalves : requests.map (valve settled) = requests'.map (valve settled) :=
      map_eq_of_forall₂ h fun r r' hr => by rw [valve, valve, hr.action]
    exact .ok ⟨rfl, hvalves, hQ⟩
  | error pair =>
    dsimp only
    rw [← sites_eq_of_alike h pair]
    exact .error _

omit h in
/-- The greatest of some strengths grows with each of them. -/
theorem intensity_le_of_alike
    (h : List.Forall₂ (Request.Alike fun d e => curve.intensity d ≤ curve'.intensity e)
      requests requests') : intensity curve requests ≤ intensity curve' requests' := by
  by_cases hzero : intensity curve requests = 0
  · exact hzero ▸ Nat.zero_le _
  · obtain ⟨r, hr, hin, heq⟩ := exists_strength hzero
    obtain ⟨r', hr', hrr'⟩ := exists_right_of_mem h hr
    have hin' : r'.action.inflates = true := hrr'.action ▸ hin
    calc intensity curve requests
        = strength curve r := heq
      _ ≤ strength curve' r' := hrr'.event.dynamic hin
      _ ≤ intensity curve' requests' := strength_le_intensity hr' hin'

end Resolution

namespace RoleTimelines.Alike

variable {t t' : RoleTimelines} (h : t.Alike R t')
include h

/-- At each tick both roles ask for the same actions at the same ports. -/
theorem requestsAt (ticks : List Binary64) (k : Nat) (tick : Binary64) :
    List.Forall₂ (Request.Alike R) (t.requestsAt ticks k tick) (t'.requestsAt ticks k tick) :=
  (h.matched.requestsAt (Event.kindred_alike R) ticks k tick).imp
    fun _ _ hr => ⟨hr.port, hr.part, hr.event⟩

/-- Merged onto the same axis, both roles have alike commands, or the same first conflict. -/
theorem merge {ticks : List Binary64} (hticks : Axis.Ascending ticks)
    (hQ : ∀ rs rs', List.Forall₂ (Request.Alike R) rs rs' →
      Q (Resolution.intensity curve rs) (Resolution.intensity curve' rs')) :
    EndAlike (List.Forall₂ (Command.Alike Q)) (t.merge curve ticks) (t'.merge curve' ticks) := by
  rw [merge_eq t hticks, merge_eq t' hticks]
  refine .mapM (List.forall₂_iff_get.mpr ⟨by simp, ?_⟩)
  intro k hk _
  have hk' : k < ticks.length := by simpa using hk
  have hrequests := h.requestsAt ticks k ticks[k]
  simp only [List.get_eq_getElem, List.getElem_mapIdx, ← h.role]
  exact Resolution.resolve_alike hrequests t.role _ (hQ _ _ hrequests)

end RoleTimelines.Alike
end Bellows
