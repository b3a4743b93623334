import Bellows.Proofs.Command.Safety
import Bellows.Proofs.Conversion.TimeAxis

/-! Every schedule ends at rest: at the last tick each port holds the pin of its part, however many
other events the tolerance has put onto that tick. -/
namespace Bellows

/-- The pump rests and all valves are closed. -/
def Command.fullStop : Command := ⟨.stop, 0, List.replicate portCount .closed⟩

namespace Resolution

variable {requests : List Request} {curve : Curve} {role : String} {time : Binary64} {c : Command}

/-- Where no port asks for anything there is nothing but rest. -/
theorem eq_fullStop_of_resolve (hlen : requests.length = portCount)
    (hrest : ∀ r ∈ requests, r.action = .noChange) (h : resolve curve role time requests = .ok c) :
    c = .fullStop := by
  obtain ⟨a, hs, _, rfl⟩ := exists_settled h
  have hasked : ∀ b ∈ asked requests, b = .noChange := by
    intro b hb
    obtain ⟨r, hr, rfl⟩ := List.mem_map.mp hb
    exact hrest r hr
  have ha : a = .noChange := by
    by_contra hne
    exact hne (hasked a (hs.mem hne))
  subst ha
  have hzero : intensity curve requests = 0 :=
    intensity_eq_zero (fun hi => by cases hasked _ hi) (fun hi => by cases hasked _ hi)
  have hclosed : requests.map (valve .noChange) = List.replicate portCount .closed := by
    refine List.eq_replicate_iff.mpr ⟨by rw [List.length_map, hlen], fun v hv => ?_⟩
    obtain ⟨r, _, rfl⟩ := List.mem_map.mp hv
    rfl
  rw [command, hzero, hclosed]
  rfl

end Resolution

namespace RoleTimelines

variable {t : RoleTimelines} {ticks : List Binary64} {k : Nat}

/-- At the last tick a port holds the last of its events, which is a pin. -/
theorem action_heldBy_last (hticks : Axis.Ascending ticks) (hk : k + 1 = ticks.length)
    (hpinned : ∀ p ∈ t.ports, Event.Pinned p.events) (port : Int) :
    (t.heldBy ticks port k).action = .noChange := by
  have hnext : ticks[k + 1]? = none := List.getElem?_eq_none (Nat.le_of_eq hk.symm)
  unfold heldBy
  cases hevents : t.eventsFor? port with
  | none => simp [Axis.held, Axis.landingOn, Event.idle]
  | some events =>
    obtain ⟨p, hp, rfl⟩ := exists_of_eventsFor? hevents
    obtain ⟨e, hlast, haction⟩ := (hpinned p hp).last
    rw [Option.getD_some, Axis.held_eq_lastBefore hticks (hpinned p hp).inOrder
      (fun u hu => by rw [hnext] at hu; cases hu), hnext, Axis.lastBefore, hlast]
    exact haction

/-- The last command of a role whose parts end with pins is a full stop. -/
theorem getLast?_merge {curve : Curve} {commands : List Command} (hticks : Axis.Ascending ticks)
    (hne : ticks ≠ []) (hpinned : ∀ p ∈ t.ports, Event.Pinned p.events)
    (h : t.merge curve ticks = .ok commands) : commands.getLast? = some .fullStop := by
  obtain ⟨hlen, hall⟩ := t.resolve_of_merge hticks h
  have hpos : 0 < ticks.length := List.length_pos_iff.mpr hne
  have hk : ticks.length - 1 < ticks.length := by omega
  have hc : ticks.length - 1 < commands.length := by omega
  have hstop : commands[ticks.length - 1] = .fullStop := by
    refine Resolution.eq_fullStop_of_resolve rfl (fun r hr => ?_) (hall _ hk hc)
    obtain ⟨port, _, rfl⟩ := List.mem_map.mp hr
    exact action_heldBy_last hticks (by omega) hpinned port
  rw [List.getLast?_eq_getElem?, hlen, List.getElem?_eq_getElem hc, hstop]

end RoleTimelines

namespace Settings

variable {settings : Settings} {pace : Pace} {tolerance : Binary64} {score : Score}
  {schedule : Schedule}

/-- A schedule has at least one tick, and at the last one every role is at rest. -/
theorem convert_ends_at_rest (hscore : score.Regular) (hpace : settings.pace = .ok pace)
    (h : settings.convert pace tolerance score = .ok schedule) :
    schedule.time ≠ [] ∧ ∀ role commands, (role, commands) ∈ schedule.instructions.entries →
      commands.getLast? = some .fullStop := by
  obtain ⟨ts, hc⟩ := exists_compiled h
  have hne := hc.time_ne_nil hscore hpace
  refine ⟨hne, fun role commands hmem => ?_⟩
  obtain ⟨_, _, t, ht, _, _, _, hm⟩ := hc.exists_role hmem
  exact RoleTimelines.getLast?_merge hc.ascending hne (fun _ hp => hc.pinned hscore hpace ht hp) hm

open Conversion in
/-- The long note and the ornament of the duet both end where the schedule does. -/
theorem convert_ends_at_rest_duet : Duet.score.Regular ∧ Duet.settings.pace = .ok Duet.pace ∧
    Duet.settings.convert Duet.pace (.ofNat 1) Duet.score = .ok Duet.schedule ∧
    Duet.commands.getLast? = some .fullStop := by
  have hmem : ("Lungs", Duet.commands) ∈ Duet.schedule.instructions.entries := by decide +kernel
  have hlast := (convert_ends_at_rest Duet.regular Duet.pace_eq Duet.convert_eq).2 _ _ hmem
  exact ⟨Duet.regular, Duet.pace_eq, Duet.convert_eq, hlast⟩

end Settings
end Bellows
