import Bellows.Proofs.Command.Merge
import Bellows.Proofs.Role.Matching

/-! What roles ask for at a tick if their events are related one by one: the same ports ask, for
related events. -/
namespace Bellows

variable {E : Event → Event → Prop} {ticks : List Binary64}

/-- Requests of one port and one part for related events. -/
structure Request.Matched (E : Event → Event → Prop) (r r' : Request) : Prop where
  port : r.port = r'.port
  part : r.part = r'.part
  event : E r.event r'.event

/-- Events that start together, and still are related if they are moved together. -/
structure Event.Kindred (E : Event → Event → Prop) : Prop where
  start : ∀ e e', E e e' → e.start = e'.start
  idle : E .idle .idle
  moved : ∀ e e', E e e' → ∀ time, E (e.at time) (e'.at time)

namespace Axis

variable {events events' : List Event} (hE : Event.Kindred E)
  (h : List.Forall₂ E events events')
include hE h

/-- What lands on a tick is found by its start alone. -/
theorem rel_landingOn (ticks : List Binary64) (k : Nat) :
    List.Forall₂ E (landingOn ticks events k) (landingOn ticks events' k) :=
  List.rel_filter (fun _ _ he => by simp only [hE.start _ _ he]) h

theorem rel_held (ticks : List Binary64) (k : Nat) :
    Option.Rel E (held ticks events k) (held ticks events' k) := by
  induction k with
  | zero =>
    rw [held_zero, held_zero]
    exact rel_getLast? (rel_landingOn hE h ticks 0)
  | succ k ih =>
    rw [held_succ, held_succ]
    exact rel_or (rel_getLast? (rel_landingOn hE h ticks (k + 1))) ih

end Axis

namespace RoleTimelines.Matched

variable {t t' : RoleTimelines} (h : t.Matched (List.Forall₂ E) t') (hE : Event.Kindred E)
include h hE

theorem requestsAt (ticks : List Binary64) (k : Nat) (tick : Binary64) :
    List.Forall₂ (Request.Matched E) (t.requestsAt ticks k tick) (t'.requestsAt ticks k tick) := by
  unfold RoleTimelines.requestsAt
  rw [List.forall₂_map_left_iff, List.forall₂_map_right_iff]
  refine List.forall₂_same.mpr fun port _ => ⟨rfl, h.partFor?_eq port, ?_⟩
  exact hE.moved _ _ (rel_getD (Axis.rel_held hE (h.events .nil port) ticks k) hE.idle) tick

/-- Related roles start the same events. -/
theorem starts_eq : (t.ports.flatMap fun p => p.events.map Event.start) =
    t'.ports.flatMap fun p => p.events.map Event.start :=
  flatMap_eq_of_forall₂ h.ports fun _ _ hp => map_eq_of_forall₂ hp.events hE.start

end RoleTimelines.Matched
end Bellows
