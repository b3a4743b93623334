import Bellows.Proofs.Command.Merge
import Bellows.Proofs.UpToOrder

/-! What decides a command: the actions that are asked for and how loudly, in whatever order. Times,
measures and notes are for reports only. -/
namespace Bellows

/-- What a request asks for, and how loudly. -/
def Request.voice (r : Request) : Action × Dynamic := (r.action, r.event.dynamic)

namespace Resolution

variable {requests requests' : List Request}

theorem asked_eq_map_voice (requests : List Request) :
    asked requests = (requests.map Request.voice).map Prod.fst := by
  rw [List.map_map]
  rfl

/-- The order of the voices does not matter for what they are settled on. -/
theorem settle_eq_of_voices
    (h : (requests.map Request.voice).Perm (requests'.map Request.voice)) :
    settle requests = settle requests' := by
  have hasks : asks requests = asks requests' := by
    funext a
    rw [Bool.eq_iff_iff, asks_iff, asks_iff, asked_eq_map_voice, asked_eq_map_voice]
    exact (h.map Prod.fst).mem_iff
  unfold settle
  rw [hasks]

/-- Nor for how strongly air is pumped in. -/
theorem intensity_eq_of_voices (curve : Curve)
    (h : (requests.map Request.voice).Perm (requests'.map Request.voice)) :
    intensity curve requests = intensity curve requests' := by
  have hvoices (requests : List Request) : intensity curve requests =
      (((requests.map Request.voice).filter fun v => v.1.inflates).map
        fun v => (curve.intensity v.2).val).foldl max 0 := by
    rw [intensity, List.filter_map, List.map_map]
    rfl
  rw [hvoices, hvoices]
  exact ((h.filter _).map _).foldl_eq 0

/-- Valves stand in the order of the requests. -/
theorem command_eq_of_voices (curve : Curve) (settled : Action)
    (h : requests.map Request.voice = requests'.map Request.voice) :
    command curve requests settled = command curve requests' settled := by
  have hvalves (requests : List Request) : requests.map (valve settled) =
      (requests.map Request.voice).map fun v => .ofBool (settled ≠ .noChange && v.1 = settled) := by
    rw [List.map_map]
    rfl
  rw [command, command, intensity_eq_of_voices curve (.of_eq h), hvalves, hvalves, h]

end Resolution

/-- Roles whose requests are resolved in related ways at each tick are merged in related ways. -/
theorem RoleTimelines.merge_related {t t' : RoleTimelines} {curve curve' : Curve}
    {ticks ticks' : List Binary64} {C : Command → Command → Prop} {K : Conflict → Conflict → Prop}
    (hticks : Axis.Ascending ticks) (hticks' : Axis.Ascending ticks')
    (hlen : ticks.length = ticks'.length)
    (h : ∀ k (hk : k < ticks.length) (hk' : k < ticks'.length), EndRelated C K
      (Resolution.resolve curve t.role ticks[k] (t.requestsAt ticks k ticks[k]))
      (Resolution.resolve curve' t'.role ticks'[k] (t'.requestsAt ticks' k ticks'[k]))) :
    EndRelated (List.Forall₂ C) K (t.merge curve ticks) (t'.merge curve' ticks') := by
  rw [merge_eq t hticks, merge_eq t' hticks']
  refine .mapM (List.forall₂_iff_get.mpr ⟨by simpa using hlen, fun k hk hk' => ?_⟩)
  simp only [List.get_eq_getElem, List.getElem_mapIdx]
  exact h k (by simpa using hk) (by simpa using hk')

end Bellows
