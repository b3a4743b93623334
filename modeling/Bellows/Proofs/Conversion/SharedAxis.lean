import Bellows.Proofs.Axis.Sharing
import Bellows.Proofs.Conversion.TimeAxis
import Bellows.Proofs.Role.Playable

/-! A role on an axis of its own and on one that it shares. Other roles add ticks and put ticks of
the role together, but they bring no command and no contradiction that the role does not have on
its own, and they keep the order of its commands. -/
namespace Bellows

namespace Resolution

variable {curve : Curve} {role : String} {time : Binary64} {c : Command}

/-- The events of some ports, all put at one time, as requests. -/
def requestsOf (part : Int → Option String) (state : Int → Event) (ports : List Int)
    (time : Binary64) : List Request :=
  ports.map fun port => ⟨port, part port, (state port).at time⟩

/-- What is asked for decides the command, not when it is asked for. -/
theorem resolve_requestsOf {part : Int → Option String} {state : Int → Event} {ports : List Int}
    (h : resolve curve role time (requestsOf part state ports time) = .ok c) (later : Binary64) :
    resolve curve role later (requestsOf part state ports later) = .ok c := by
  have hasks : ∀ a, asks (requestsOf part state ports later) a =
      asks (requestsOf part state ports time) a := by
    intro a
    simp only [asks, requestsOf, List.any_map]
    rfl
  have hsettle : settle (requestsOf part state ports later) =
      settle (requestsOf part state ports time) := by
    simp only [settle, hasks]
  have hcommand : ∀ a, command curve (requestsOf part state ports later) a =
      command curve (requestsOf part state ports time) a := by
    intro a
    simp only [command, intensity, requestsOf, List.filter_map, List.map_map]
    rfl
  unfold resolve at h ⊢
  rw [hsettle]
  cases hs : settle (requestsOf part state ports time) with
  | error pair =>
    rw [hs] at h
    cases h
  | ok a =>
    rw [hs] at h
    exact (congrArg Except.ok (hcommand a)).trans h

end Resolution

namespace RoleTimelines

variable {t : RoleTimelines} {own shared : List Binary64} {solo : List Command} {curve : Curve}
  (hports : (t.ports.map PortTimeline.port).Nodup) (hevents : ∀ p ∈ t.ports, Axis.InOrder p.events)
include hports hevents

/-- On an increasing axis the ports of a role ask for what their states say. -/
theorem requestsAt_eq_requestsOf {ticks : List Binary64} (hticks : Axis.Increasing ticks) (k : Nat)
    (tick : Binary64) :
    t.requestsAt ticks k tick =
      Resolution.requestsOf t.partFor? (fun port => t.stateAt ticks port k) devicePorts tick := by
  simp only [requestsAt, heldBy_eq_stateAt t hports hevents hticks]
  rfl

/-- Where the ports are at each tick in the states of some tick of another axis, the commands are
those of that other axis. -/
theorem merge_of_stateAt_eq (hown : Axis.Increasing own) (hshared : Axis.Increasing shared)
    {place : Nat → Nat} (hplace : ∀ k, place k < own.length)
    (hstate : ∀ port k, t.stateAt shared port k = t.stateAt own port (place k))
    (hsolo : t.merge curve own = .ok solo) :
    ∃ commands, t.merge curve shared = .ok commands ∧ commands.length = shared.length ∧
      ∀ k < commands.length, commands[k]? = solo[place k]? := by
  obtain ⟨hlen, hall⟩ := t.resolve_of_merge hown.ascending hsolo
  have hin : ∀ k, place k < solo.length := fun k => hlen ▸ hplace k
  have hcommands : ((List.range shared.length).map fun k => solo.get ⟨place k, hin k⟩).length =
      shared.length := by rw [List.length_map, List.length_range]
  refine ⟨_, t.merge_eq_ok hshared.ascending hcommands fun k hk hc => ?_, hcommands, ?_⟩
  · have hsame := hall (place k) (hplace k) (hin k)
    rw [requestsAt_eq_requestsOf hports hevents hown] at hsame
    rw [requestsAt_eq_requestsOf hports hevents hshared, List.getElem_map, List.getElem_range]
    simp only [hstate _ k]
    exact Resolution.resolve_requestsOf hsame _
  · intro k hk
    rw [List.getElem?_eq_getElem hk, List.getElem?_eq_getElem (hin k), List.getElem_map,
      List.getElem_range]
    rfl

end RoleTimelines

namespace Conversion.Bridge

open Sample

/-- A short note and a rest of some length in one part; in the other one a hold that ends while the
note sounds. -/
def score (rest : Int) : Score := Keyed.ofList [
  ("P1", ⟨"Low", [⟨1, ⟨4, 4⟩, 1000, [⟨.actuate .mf, 2⟩, ⟨.rest .mf, rest⟩]⟩]⟩),
  ("P2", ⟨"High", [⟨1, ⟨4, 4⟩, 1000, [⟨.hold, 1⟩, ⟨.hold, 9⟩]⟩]⟩)]

theorem low_ne_empty : "Low" ≠ "" := by decide

theorem high_ne_empty : "High" ≠ "" := by decide

def settings : Settings := ⟨60, Keyed.ofList [
  ("P1", ⟨"Low", 1, low_ne_empty, first_mem⟩), ("P2", ⟨"High", 1, high_ne_empty, first_mem⟩)],
  default, .int 20, bpm_pos⟩

def pace : Pace := ⟨.whole 60, 20⟩

/-- The first part with its end at some time. -/
def low (finish : Nat) : RoleTimelines := ⟨"Low", [⟨1, "P1", [⟨.ofNat 0, .inflate, .mf, 1, some 0⟩,
  ⟨.ofNat 2, .release, .mf, 1, some 1⟩, ⟨.ofNat finish, .noChange, .mf, 1, none⟩]⟩]⟩

def high : RoleTimelines := ⟨"High", [⟨1, "P2", [⟨.ofNat 0, .noChange, .ppp, 1, some 0⟩,
  ⟨.ofNat 1, .noChange, .ppp, 1, some 1⟩, ⟨.ofNat 10, .noChange, .ppp, 1, none⟩]⟩]⟩

def pumping : Command := ⟨.actuate, 160, [.opened, .closed, .closed, .closed, .closed]⟩

def venting : Command := ⟨.release, 0, [.opened, .closed, .closed, .closed, .closed]⟩

def resting : Command := ⟨.stop, 0, [.closed, .closed, .closed, .closed, .closed]⟩

theorem pace_eq : settings.pace = .ok pace :=
  Settings.pace_eq_ok rfl (by decide) (by decide +kernel)

theorem axis_low : axis (.ofNat 1) [low 10] = [.ofNat 0, .ofNat 2, .ofNat 10] :=
  axis_of_perm [.ofNat 0, .ofNat 2, .ofNat 10] (by decide +kernel) (by decide +kernel)
    (by decide +kernel) (by decide +kernel)

/-- The hold joins the first two ticks. -/
theorem axis_both : axis (.ofNat 1) [low 10, high] = [.ofNat 0, .ofNat 10] :=
  axis_of_perm [.ofNat 0, .ofNat 0, .ofNat 1, .ofNat 2, .ofNat 10, .ofNat 10]
    (by decide +kernel) (by decide +kernel) (by decide +kernel) (by decide +kernel)

theorem axis_low_backwards : axis (.ofNat 1) [low 0] = [.ofNat 0, .ofNat 2] :=
  axis_of_perm [.ofNat 0, .ofNat 0, .ofNat 2] (by decide +kernel) (by decide +kernel)
    (by decide +kernel) (by decide +kernel)

theorem axis_both_backwards : axis (.ofNat 1) [low 0, high] = [.ofNat 0, .ofNat 10] :=
  axis_of_perm [.ofNat 0, .ofNat 0, .ofNat 0, .ofNat 1, .ofNat 2, .ofNat 10]
    (by decide +kernel) (by decide +kernel) (by decide +kernel) (by decide +kernel)

end Conversion.Bridge

namespace Conversion

variable {settings : Settings} {pace : Pace} {tolerance : Binary64} {score : Score}
  {ts : List RoleTimelines} {t : RoleTimelines} {solo : List Command} {curve : Curve} {k : Nat}

/-- Commands on a shared axis that follow those of a role on its own: each is the one at the last
own tick before the next shared tick, or at the last own tick, and their order is kept. -/
structure Follows (own shared : List Binary64) (solo commands : List Command) (place : Nat → Nat) :
    Prop where
  length : commands.length = shared.length
  mono : ∀ j k, j ≤ k → k < commands.length → place j ≤ place k
  place_lt : ∀ k < commands.length, place k < solo.length
  command : ∀ k < commands.length, commands[k]? = solo[place k]?
  before : ∀ k < commands.length, ∀ next, shared[k + 1]? = some next →
    ∀ i tick, own[i]? = some tick → (tick.lt next = true ↔ i ≤ place k)
  last : ∀ k < commands.length, shared[k + 1]? = none → place k + 1 = solo.length

/-- A role by itself begins where any axis begins that it shares. -/
theorem Played.head?_eq (h : Played pace score ts) (hforwards : RunsForwards score ts)
    (hpace : settings.pace = .ok pace) (tolerance : Binary64) (ht : t ∈ ts) :
    (axis tolerance [t]).head? = (axis tolerance ts).head? := by
  have hsolo : Played pace score [t] := fun u hu => List.mem_singleton.mp hu ▸ h t ht
  rw [hsolo.head?_axis (hforwards.singleton ht) hpace tolerance (List.cons_ne_nil t []),
    h.head?_axis hforwards hpace tolerance (List.ne_nil_of_mem ht)]

/-- A role by itself begins no later than the second tick of any axis that it shares. -/
theorem Played.head_lt_tick (h : Played pace score ts) (hforwards : RunsForwards score ts)
    (hpace : settings.pace = .ok pace) (htolerance : Binary64.zero.le tolerance = true)
    (ht : t ∈ ts) {c : Binary64} (hc : (axis tolerance ts)[k + 1]? = some c) :
    ∃ u, (axis tolerance [t]).head? = some u ∧ u.lt c = true :=
  Axis.exists_head_lt (h.increasing_axis hforwards hpace htolerance)
    (h.head?_eq hforwards hpace tolerance ht) hc

/-- A role by itself starts nothing that it does not start beside others. -/
theorem starts_subset (ht : t ∈ ts) : ∀ x ∈ starts [t], x ∈ starts ts := by
  intro x hx
  obtain ⟨u, hu, hrest⟩ := mem_starts.mp hx
  obtain rfl := List.mem_singleton.mp hu
  exact mem_starts.mpr ⟨u, ht, hrest⟩

/-- At a tick of a shared axis a port is in the state of the last own tick before the next one. -/
theorem Played.stateAt_axis (h : Played pace score ts) (hforwards : RunsForwards score ts)
    (hpace : settings.pace = .ok pace) (htolerance : Binary64.zero.le tolerance = true)
    (ht : t ∈ ts) (port : Int) (k : Nat) :
    t.stateAt (axis tolerance ts) port k = t.stateAt (axis tolerance [t]) port
      (Axis.tickBefore (axis tolerance [t]) (axis tolerance ts)[k + 1]?) := by
  unfold RoleTimelines.stateAt
  cases hfind : t.ports.find? fun p => p.port = port with
  | none => rfl
  | some p =>
    have hp := List.mem_of_find?_eq_some hfind
    have hown : ∀ e ∈ p.events, e.start ∈ starts [t] := fun e he =>
      mem_starts.mpr ⟨t, List.mem_singleton_self t, p, hp, e, he, rfl⟩
    refine congrArg (Option.getD · Event.idle) ?_
    exact Axis.lastBefore_eq_lastBefore (starts_subset ht)
      (fun _ => h.isFinite_of_mem_starts hforwards hpace) htolerance hown fun c hc =>
      ⟨List.mem_of_getElem? hc,
        h.head_lt_tick hforwards hpace htolerance ht hc⟩

/-- Whatever roles share an axis, where time runs forwards in their parts, a role that has commands
on its own axis has commands on the shared one too, and they follow its own. -/
theorem merge_on_shared_axis (hforwards : RunsForwards score ts) (hpace : settings.pace = .ok pace)
    (htolerance : Binary64.zero.le tolerance = true) (hts : Played pace score ts) (ht : t ∈ ts)
    (hsolo : t.merge curve (axis tolerance [t]) = .ok solo) :
    ∃ commands, t.merge curve (axis tolerance ts) = .ok commands ∧
      ∃ place, Follows (axis tolerance [t]) (axis tolerance ts) solo commands place := by
  have hown : Played pace score [t] := fun u hu => List.mem_singleton.mp hu ▸ hts t ht
  have hownInc := hown.increasing_axis (hforwards.singleton ht) hpace htolerance
  have hsharedInc := hts.increasing_axis hforwards hpace htolerance
  have hownNe := hown.axis_ne_nil (hforwards.singleton ht) hpace tolerance (List.cons_ne_nil t [])
  have hplace : ∀ k : Nat, Axis.tickBefore (axis tolerance [t]) (axis tolerance ts)[k + 1]? <
      (axis tolerance [t]).length := fun k => Axis.tickBefore_lt_length hownNe _
  obtain ⟨r, hrt⟩ := hts t ht
  obtain ⟨commands, hm, hlen, hcommand⟩ := RoleTimelines.merge_of_stateAt_eq (Role.nodup_ports hrt)
    (fun p hp => (hts.pinned hforwards hpace ht hp).inOrder) hownInc hsharedInc hplace
    (fun port k => hts.stateAt_axis hforwards hpace htolerance ht port k) hsolo
  have hsoloLen := (t.resolve_of_merge hownInc.ascending hsolo).1
  refine ⟨commands, hm, _, hlen, ?_, fun k _ => hsoloLen ▸ hplace k, hcommand, ?_, ?_⟩
  · intro j k hjk hk
    exact Axis.tickBefore_mono hsharedInc hjk (hlen ▸ hk)
  · intro k _ next hnext i tick htick
    obtain ⟨hi, rfl⟩ := List.getElem?_eq_some_iff.mp htick
    rw [hnext]
    exact Axis.lt_iff_le_tickBefore hownInc
      (hts.head_lt_tick hforwards hpace htolerance ht hnext) hi
  · intro k _ hnext
    have hpos := List.length_pos_iff.mpr hownNe
    rw [hnext, Axis.tickBefore]
    omega

open Bridge in
/-- With the hold beside it the short note is gone: its run now begins with it and ends with the
rest. -/
theorem merge_on_shared_axis_bridge : RunsForwards (Bridge.score 8) [low 10, high] ∧
    Bridge.settings.pace = .ok Bridge.pace ∧ Binary64.zero.le (.ofNat 1) = true ∧
    Played Bridge.pace (Bridge.score 8) [low 10, high] ∧
    (low 10).merge default (axis (.ofNat 1) [low 10]) = .ok [pumping, venting, resting] ∧
    ∃ commands, (low 10).merge default (axis (.ofNat 1) [low 10, high]) = .ok commands ∧
      commands.length = 2 ∧ commands[0]? = some venting := by
  have hforwards : RunsForwards (Bridge.score 8) [low 10, high] :=
    runsForwards_of_regular (by decide +kernel) _
  have htolerance : Binary64.zero.le (.ofNat 1) = true := by decide +kernel
  have hplayed : Played Bridge.pace (Bridge.score 8) [low 10, high] := by
    intro t ht
    rcases List.mem_cons.mp ht with rfl | ht
    · exact ⟨⟨"Low", [⟨"P1", 1⟩]⟩,
        Role.timelines_singleton (by decide +kernel) (by decide +kernel)⟩
    · obtain rfl := List.mem_singleton.mp ht
      exact ⟨⟨"High", [⟨"P2", 1⟩]⟩,
        Role.timelines_singleton (by decide +kernel) (by decide +kernel)⟩
  have hsolo : (low 10).merge default (axis (.ofNat 1) [low 10]) =
      .ok [pumping, venting, resting] := by
    rw [axis_low]
    decide +kernel
  obtain ⟨commands, hm, place, hf⟩ := merge_on_shared_axis hforwards Bridge.pace_eq htolerance
    hplayed List.mem_cons_self hsolo
  rw [axis_low, axis_both] at hf
  have hlen : commands.length = 2 := hf.length
  have hlow : 1 ≤ place 0 :=
    (hf.before 0 (by omega) (.ofNat 10) rfl 1 (.ofNat 2) rfl).mp (by decide +kernel)
  have hhigh : ¬ 2 ≤ place 0 := fun h => absurd
    ((hf.before 0 (by omega) (.ofNat 10) rfl 2 (.ofNat 10) rfl).mpr h) (by decide +kernel)
  have hplace : place 0 = 1 := by omega
  have hfirst := hf.command 0 (by omega)
  rw [hplace] at hfirst
  exact ⟨hforwards, Bridge.pace_eq, htolerance, hplayed, hsolo, commands, hm, hlen, hfirst⟩

open Bridge in
/-- Where a rest has a negative length, time runs backwards and the end of the part comes before the
rest. Alone the role ends on the rest; beside the hold, on its end. -/
theorem not_follows_backwards :
    Role.timelines ⟨"Low", [⟨"P1", 1⟩]⟩ Bridge.pace (Bridge.score (-2)) = .ok (low 0) ∧
    Role.timelines ⟨"High", [⟨"P2", 1⟩]⟩ Bridge.pace (Bridge.score (-2)) = .ok high ∧
    (low 0).merge default (axis (.ofNat 1) [low 0]) = .ok [resting, venting] ∧
    (low 0).merge default (axis (.ofNat 1) [low 0, high]) = .ok [resting, resting] ∧
    ∀ place, ¬ Follows (axis (.ofNat 1) [low 0]) (axis (.ofNat 1) [low 0, high])
      [resting, venting] [resting, resting] place := by
  refine ⟨Role.timelines_singleton (by decide +kernel) (by decide +kernel),
    Role.timelines_singleton (by decide +kernel) (by decide +kernel), ?_, ?_, ?_⟩
  · rw [axis_low_backwards]
    decide +kernel
  · rw [axis_both_backwards]
    decide +kernel
  · intro place hf
    rw [axis_low_backwards, axis_both_backwards] at hf
    have hplace : place 1 = 1 := Nat.succ.inj (hf.last 1 (by decide) rfl)
    have hcommand := hf.command 1 (by decide)
    rw [hplace] at hcommand
    exact absurd hcommand (by decide)

end Conversion
end Bellows
