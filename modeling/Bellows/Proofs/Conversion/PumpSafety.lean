import Bellows.Proofs.Command.Safety
import Bellows.Proofs.Conversion.Outcome

/-! Pump safety of whole schedules: every command at every tick is safe, and the ports that a role
does not use stay closed. -/
namespace Bellows

/-- Whether some part plays a role at a port. -/
def Settings.Assigns (s : Settings) (role : String) (port : Int) : Prop :=
  ∃ part a, s.assignments.get? part = some a ∧ a.role = role ∧ a.port = port

namespace RoleTimelines

variable (t : RoleTimelines) {ticks : List Binary64} {tick : Binary64} {k : Nat} {r : Request}

/-- A port that asks for something has a timeline. -/
theorem exists_port (hr : r ∈ t.requestsAt ticks k tick) (h : r.action ≠ .noChange) :
    ∃ p ∈ t.ports, p.port = r.port := by
  obtain ⟨port, _, rfl⟩ := List.mem_map.mp hr
  cases hfind : t.ports.reverse.find? fun p => p.port = port with
  | none =>
    refine (h ?_).elim
    simp [Request.action, heldBy, eventsFor?, hfind, Axis.held, Axis.landingOn, Event.at,
      Event.idle]
  | some p =>
    exact ⟨p, List.mem_reverse.mp (List.mem_of_find?_eq_some hfind),
      by simpa using List.find?_some hfind⟩

end RoleTimelines

namespace Settings

variable {settings : Settings} {pace : Pace} {tolerance : Binary64} {score : Score}
  {schedule : Schedule} {role : String} {commands : List Command}

/-- Every command of a schedule is safe for what the ports of its role ask for at its tick, and
opens no port that no part of the role drives. -/
theorem convert_safe (h : settings.convert pace tolerance score = .ok schedule)
    (hmem : (role, commands) ∈ schedule.instructions.entries) :
    ∃ r ∈ settings.roles, ∃ t, r.name = role ∧ r.timelines pace score = .ok t ∧
      commands.length = schedule.time.length ∧
      ∀ k (hk : k < commands.length),
        (∃ requests, (t.requests schedule.time)[k]? = some requests ∧
          Resolution.Safe settings.curve requests commands[k]) ∧
        ∀ port, ¬ settings.Assigns role port → ¬ commands[k].Opens port := by
  obtain ⟨ts, hc⟩ := exists_compiled h
  obtain ⟨r, hr, t, _, hname, ht, _, hm⟩ := hc.exists_role hmem
  have hlen := (t.resolve_of_merge hc.ascending hm).1
  refine ⟨r, hr, t, hname, ht, hlen, fun k hk => ?_⟩
  have hk' : k < schedule.time.length := by omega
  have hsafe := RoleTimelines.safe_of_merge hc.ascending hm hk' hk
  refine ⟨⟨_, ?_, hsafe⟩, ?_⟩
  · rw [t.requests_eq hc.ascending]
    simp [hk']
  · intro port hunused hopen
    obtain ⟨q, hq, rfl, hact⟩ := hsafe.asked port hopen
    obtain ⟨p, hp, hport⟩ := t.exists_port hq hact
    obtain ⟨m, hm, hd⟩ := Role.exists_member ht hp
    obtain ⟨a, ha, harole, haport⟩ := exists_assignment hr hm
    exact hunused ⟨m.part, a, ha, harole.trans hname, haport.trans (hd.port.symm.trans hport)⟩

open Conversion in
/-- The ornament of the duet lets air out with the strength of the note that it overrules. -/
theorem convert_safe_duet :
    Duet.settings.convert Duet.pace (.ofNat 1) Duet.score = .ok Duet.schedule ∧
    ("Lungs", Duet.commands) ∈ Duet.schedule.instructions.entries ∧
    ∃ requests, Resolution.Safe Duet.settings.curve requests
        ⟨.release, 160, [.closed, .closed, .closed, .opened, .closed]⟩ ∧
      Resolution.settle requests = .ok .trillRelease ∧ ∃ r ∈ requests, r.action = .inflate := by
  have hmem : ("Lungs", Duet.commands) ∈ Duet.schedule.instructions.entries := by decide +kernel
  obtain ⟨_, _, _, _, _, _, hall⟩ := convert_safe Duet.convert_eq hmem
  obtain ⟨⟨requests, _, hsafe⟩, _⟩ := hall 2 (by decide)
  obtain ⟨hsettled, r, hr, hplain, _⟩ := hsafe.release_intensity rfl (by decide)
  exact ⟨Duet.convert_eq, hmem, requests, hsafe, hsettled, r, hr, hplain⟩

end Settings
end Bellows
