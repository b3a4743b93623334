import Mathlib.Data.List.Nodup
import Bellows.Command.Merge
import Bellows.Proofs.Attempts
import Bellows.Proofs.Axis.SampleAndHold
import Bellows.Proofs.Command.Settling

/-! The meaning of a merged role: each port is sampled and held, and each tick is resolved on its
own. -/
namespace Bellows

namespace RoleTimelines

variable (t : RoleTimelines) {ticks : List Binary64} {commands : List Command} {curve : Curve}
  {port : Int} {k : Nat}

/-- The event that a port holds at a tick. -/
def heldBy (ticks : List Binary64) (port : Int) (k : Nat) : Event :=
  (Axis.held ticks ((t.eventsFor? port).getD []) k).getD .idle

/-- What the five ports ask for at a tick. -/
def requestsAt (ticks : List Binary64) (k : Nat) (tick : Binary64) : List Request :=
  devicePorts.map fun port => ⟨port, t.partFor? port, (t.heldBy ticks port k).at tick⟩

theorem requests_eq (h : Axis.Ascending ticks) :
    t.requests ticks = ticks.mapIdx (t.requestsAt ticks) := by
  apply List.ext_getElem?
  intro k
  by_cases hk : k < ticks.length
  · simp only [requests, requestsOf, Axis.resample_eq h]
    simp [hk, List.filterMap_map, Function.comp_def, requestsAt, heldBy]
  · simp [requests, hk]

/-- Merging resolves one tick after another, each from what its ports ask for. -/
theorem merge_eq (h : Axis.Ascending ticks) (curve : Curve) :
    t.merge curve ticks = (ticks.mapIdx fun k tick => (tick, t.requestsAt ticks k tick)).mapM
      fun p => Resolution.resolve curve t.role p.1 p.2 := by
  have hzip : ticks.zip (t.requests ticks) =
      ticks.mapIdx fun k tick => (tick, t.requestsAt ticks k tick) := by
    apply List.ext_getElem (by simp [requests_eq t h])
    intro k hk hk'
    simp [requests_eq t h]
  rw [merge, hzip]

/-- A merged role has one command for each tick, made from what its ports ask for there. -/
theorem resolve_of_merge (h : Axis.Ascending ticks) (hm : t.merge curve ticks = .ok commands) :
    commands.length = ticks.length ∧
      ∀ k (hk : k < ticks.length) (hc : k < commands.length),
        Resolution.resolve curve t.role ticks[k] (t.requestsAt ticks k ticks[k]) =
          .ok commands[k] := by
  rw [merge_eq t h, mapM_eq_ok_iff] at hm
  have hlen := hm.length_eq
  rw [List.length_mapIdx] at hlen
  refine ⟨hlen.symm, fun k hk hc => ?_⟩
  have hget := List.Forall₂.get hm (by simpa using hk) hc
  simpa using hget

/-- Commands that the requests of their ticks are resolved into are those of the merged role. -/
theorem merge_eq_ok (h : Axis.Ascending ticks) (hlen : commands.length = ticks.length)
    (hall : ∀ k (hk : k < ticks.length) (hc : k < commands.length),
      Resolution.resolve curve t.role ticks[k] (t.requestsAt ticks k ticks[k]) = .ok commands[k]) :
    t.merge curve ticks = .ok commands := by
  rw [merge_eq t h, mapM_eq_ok_iff, List.forall₂_iff_get]
  refine ⟨by rw [List.length_mapIdx, hlen], fun k hk hc => ?_⟩
  have hk' : k < ticks.length := by simpa using hk
  simpa using hall k hk' hc

/-- Without a contradiction at any tick there are commands. -/
theorem exists_merge_eq_ok (h : Axis.Ascending ticks) (curve : Curve)
    (hfree : ∀ k (hk : k < ticks.length),
      ¬ Action.Contradict (Resolution.asked (t.requestsAt ticks k ticks[k]))) :
    ∃ commands, t.merge curve ticks = .ok commands := by
  rw [merge_eq t h]
  refine exists_mapM_eq_ok fun p hp => ?_
  obtain ⟨k, hk, rfl⟩ := List.mem_mapIdx.mp hp
  exact Resolution.exists_resolve_eq_ok _ _ _ (hfree k hk)

/-- The first contradiction is the answer for the whole role. -/
theorem exists_merge_eq_error (h : Axis.Ascending ticks) (curve : Curve) (hk : k < ticks.length)
    (hbad : Action.Contradict (Resolution.asked (t.requestsAt ticks k ticks[k])))
    (hfirst : ∀ j (hj : j < ticks.length), j < k →
      ¬ Action.Contradict (Resolution.asked (t.requestsAt ticks j ticks[j]))) :
    ∃ conflict, t.merge curve ticks = .error conflict ∧ conflict.time = ticks[k] := by
  obtain ⟨conflict, hconflict, htime⟩ :=
    Resolution.exists_resolve_eq_error curve t.role ticks[k] hbad
  refine ⟨conflict, ?_, htime⟩
  rw [merge_eq t h]
  refine mapM_eq_error (k := k) (by simpa using hk) (by simpa using hconflict) ?_
  intro j hj hjk
  rw [List.getElem_mapIdx]
  exact Resolution.exists_resolve_eq_ok _ _ _ (hfirst j (by simpa using hj) hjk)

/-- The event in force at a port at a tick: the last one that starts strictly before the next
tick, at the last tick simply the last one, and the idle one where there is none. -/
def stateAt (ticks : List Binary64) (port : Int) (k : Nat) : Event :=
  ((t.ports.find? fun p => p.port = port).bind fun p =>
    Axis.lastBefore p.events ticks[k + 1]?).getD .idle

/-- The states of the five ports at a tick as requests. -/
def statesAt (ticks : List Binary64) (k : Nat) (tick : Binary64) : List Request :=
  devicePorts.map fun port => ⟨port, t.partFor? port, (t.stateAt ticks port k).at tick⟩

/-- What the five ports are doing at a tick. -/
def actionsAt (ticks : List Binary64) (k : Nat) : List Action :=
  devicePorts.map fun port => (t.stateAt ticks port k).action

/-- Where no port is named twice, a port has only one timeline to be found. -/
theorem find?_of_nodup {ports : List PortTimeline} (h : (ports.map PortTimeline.port).Nodup)
    {p : PortTimeline} (hp : p ∈ ports) : (ports.find? fun q => q.port = p.port) = some p := by
  cases hfind : ports.find? fun q => q.port = p.port with
  | none =>
    have := List.find?_eq_none.mp hfind p hp
    simp at this
  | some q =>
    have hq : q.port = p.port := by simpa using List.find?_some hfind
    rw [List.inj_on_of_nodup_map h (List.mem_of_find?_eq_some hfind) hp hq]

/-- The timeline that is looked up for a port is one of the role. -/
theorem exists_of_eventsFor? {t : RoleTimelines} {events : List Event}
    (h : t.eventsFor? port = some events) : ∃ p ∈ t.ports, p.events = events := by
  obtain ⟨p, hp, rfl⟩ := Option.map_eq_some_iff.mp h
  exact ⟨p, List.mem_reverse.mp (List.mem_of_find?_eq_some hp), rfl⟩

theorem eventsFor?_of_nodup (h : (t.ports.map PortTimeline.port).Nodup) (port : Int) :
    t.eventsFor? port = (t.ports.find? fun p => p.port = port).map PortTimeline.events := by
  unfold eventsFor?
  congr 1
  cases hfind : t.ports.find? fun p => p.port = port with
  | none =>
    rw [List.find?_eq_none] at hfind ⊢
    exact fun p hp => hfind p (List.mem_reverse.mp hp)
  | some p =>
    have hp : p.port = port := by simpa using List.find?_some hfind
    subst hp
    refine find?_of_nodup ?_ (List.mem_reverse.mpr (List.mem_of_find?_eq_some hfind))
    rw [List.map_reverse]
    exact List.nodup_reverse.mpr h

/-- On an increasing axis, with each port's events in order, a port holds its state. -/
theorem heldBy_eq_stateAt (hports : (t.ports.map PortTimeline.port).Nodup)
    (hevents : ∀ p ∈ t.ports, Axis.InOrder p.events) (hticks : Axis.Increasing ticks)
    (port : Int) (k : Nat) : t.heldBy ticks port k = t.stateAt ticks port k := by
  unfold heldBy stateAt
  rw [eventsFor?_of_nodup t hports]
  cases hfind : t.ports.find? fun p => p.port = port with
  | none => simp [Axis.held, Axis.landingOn]
  | some p =>
    rw [Option.map_some, Option.getD_some, Axis.held_eq_lastBefore hticks.ascending
      (hevents p (List.mem_of_find?_eq_some hfind)) fun _ => hticks.isNan_succ]
    rfl

/-- The meaning of a merged role. Without a contradiction there is one command for each tick, which
resolves the states of the five ports there; otherwise the first contradictory tick is reported. -/
theorem merge_samples_and_holds (curve : Curve) (hports : (t.ports.map PortTimeline.port).Nodup)
    (hevents : ∀ p ∈ t.ports, Axis.InOrder p.events) (hticks : Axis.Increasing ticks) :
    ((∀ k < ticks.length, ¬ Action.Contradict (t.actionsAt ticks k)) →
      ∃ commands, t.merge curve ticks = .ok commands ∧ commands.length = ticks.length ∧
        ∀ k (hk : k < ticks.length) (hc : k < commands.length),
          Resolution.resolve curve t.role ticks[k] (t.statesAt ticks k ticks[k]) =
            .ok commands[k]) ∧
    (∀ k (hk : k < ticks.length), Action.Contradict (t.actionsAt ticks k) →
      (∀ j < k, ¬ Action.Contradict (t.actionsAt ticks j)) →
        ∃ conflict, t.merge curve ticks = .error conflict ∧ conflict.time = ticks[k]) := by
  have hstates : ∀ k tick, t.requestsAt ticks k tick = t.statesAt ticks k tick := by
    intro k tick
    simp only [requestsAt, statesAt, heldBy_eq_stateAt t hports hevents hticks]
  have hasked : ∀ k tick, Resolution.asked (t.requestsAt ticks k tick) = t.actionsAt ticks k := by
    intro k tick
    rw [hstates, Resolution.asked, statesAt, List.map_map]
    rfl
  constructor
  · intro hfree
    obtain ⟨commands, hm⟩ := exists_merge_eq_ok t hticks.ascending curve
      fun k hk => by rw [hasked]; exact hfree k hk
    obtain ⟨hlen, hall⟩ := resolve_of_merge t hticks.ascending hm
    refine ⟨commands, hm, hlen, fun k hk hc => ?_⟩
    rw [← hstates]
    exact hall k hk hc
  · intro k hk hbad hfirst
    rw [← hasked k ticks[k]] at hbad
    exact exists_merge_eq_error t hticks.ascending curve hk hbad
      fun j _ hjk => by rw [hasked]; exact hfirst j hjk

/-- One part pumps throughout, while another one lets air out from its second note on. -/
def overlapping : RoleTimelines := ⟨"Lungs", [
  ⟨2, "P1", [⟨.ofNat 0, .inflate, .mf, 1, some 0⟩, ⟨.ofNat 100, .noChange, .mf, 1, none⟩]⟩,
  ⟨4, "P2", [⟨.ofNat 0, .noChange, .ppp, 1, some 0⟩, ⟨.ofNat 50, .release, .p, 1, some 1⟩,
    ⟨.ofNat 100, .noChange, .p, 1, none⟩]⟩]⟩

/-- The first part is still pumping when the second one lets air out, though no event of it starts
there. -/
theorem merge_overlapping :
    (overlapping.ports.map PortTimeline.port).Nodup ∧
    (∀ p ∈ overlapping.ports, Axis.InOrder p.events) ∧
    Axis.Increasing [.ofNat 0, .ofNat 50, .ofNat 100] ∧
    ∃ conflict, overlapping.merge default [.ofNat 0, .ofNat 50, .ofNat 100] = .error conflict ∧
      conflict.time = .ofNat 50 := by
  have hports : (overlapping.ports.map PortTimeline.port).Nodup := by decide
  have hevents : ∀ p ∈ overlapping.ports, Axis.InOrder p.events := by decide +kernel
  have hticks : Axis.Increasing [.ofNat 0, .ofNat 50, .ofNat 100] := by decide +kernel
  obtain ⟨conflict, hm, htime⟩ :=
    (merge_samples_and_holds overlapping default hports hevents hticks).2 1
      (by decide) (by decide +kernel) (by decide +kernel)
  rw [List.getElem_cons_succ, List.getElem_cons_zero] at htime
  exact ⟨hports, hevents, hticks, conflict, hm, htime⟩

end RoleTimelines
end Bellows
