import Mathlib.Tactic.ByContra
import Bellows.Proofs.Command.Mask
import Bellows.Proofs.Command.Merge

/-! Pump and valves: the pump never works against closed valves, and never harder than one of the
ports asks it to. -/
namespace Bellows

/-- Whether the valve of a port is open. -/
def Command.Opens (c : Command) (port : Int) : Prop := ∃ n ∈ c.openPorts, (n : Int) = port

theorem Command.opens_iff {c : Command} {port : Int} :
    c.Opens port ↔ ∃ i : Nat, port = i + 1 ∧ c.valves[i]? = some .opened := by
  constructor
  · rintro ⟨n, hn, rfl⟩
    obtain ⟨i, rfl, hi⟩ := mem_openPorts.mp hn
    exact ⟨i, Int.natCast_succ i, hi⟩
  · rintro ⟨i, rfl, hi⟩
    exact ⟨i + 1, mem_openPorts.mpr ⟨i, rfl, hi⟩, rfl⟩

namespace Action

variable {a : Action} {asked : List Action}

theorem inflates_iff : a.inflates = true ↔ a = .inflate ∨ a = .trillInflate := by
  cases a <;> decide

/-- Only what some port asks for is settled on, or else nothing. -/
theorem Settles.mem (h : Settles asked a) (ha : a ≠ .noChange) : a ∈ asked := by
  cases h with
  | trillInflate h _ => exact h
  | trillRelease _ h => exact h
  | inflate _ _ h _ => exact h
  | release _ _ _ h => exact h
  | noChange => exact (ha rfl).elim

end Action

namespace Resolution

variable {requests : List Request} {a : Action} {r : Request} {c : Command} {curve : Curve}
  {role : String} {time : Binary64} {port : Int} {i : Nat}

theorem pumpAction_eq_stop : pumpAction a = .stop ↔ a = .noChange := by
  cases a <;> decide

theorem pumpAction_eq_actuate : pumpAction a = .actuate ↔ a.inflates = true := by
  cases a <;> decide

theorem pumpAction_eq_release : pumpAction a = .release ↔ a = .release ∨ a = .trillRelease := by
  cases a <;> decide

theorem valve_eq_opened : valve a r = .opened ↔ a ≠ .noChange ∧ r.action = a := by
  simp [valve, Valve.ofBool]

/-- The port of a request is its place among the requests. -/
theorem port_eq (hports : requests.map Request.port = RoleTimelines.devicePorts)
    (hr : requests[i]? = some r) : r.port = i + 1 := by
  have hi : RoleTimelines.devicePorts[i]? = some r.port := by
    rw [← hports, List.getElem?_map, hr]
    rfl
  match i, hi with
  | 0, hi | 1, hi | 2, hi | 3, hi | 4, hi => simpa [RoleTimelines.devicePorts] using hi.symm

/-- A port is open when the action that it asks for was settled on and changes something. -/
theorem opens_command (hports : requests.map Request.port = RoleTimelines.devicePorts)
    (hr : r ∈ requests) :
    (command curve requests a).Opens r.port ↔ a ≠ .noChange ∧ r.action = a := by
  obtain ⟨i, hi⟩ := List.mem_iff_getElem?.mp hr
  have hvalve : (command curve requests a).valves[i]? = some (valve a r) := by
    simp [command, hi]
  rw [← valve_eq_opened, Command.opens_iff]
  constructor
  · rintro ⟨j, hj, hopen⟩
    obtain rfl : i = j := by
      have := port_eq hports hi
      omega
    exact Option.some.inj (hvalve.symm.trans hopen)
  · intro hopen
    exact ⟨i, port_eq hports hi, by rw [hvalve, hopen]⟩

/-- Behind every open port there is a request. -/
theorem exists_request (hports : requests.map Request.port = RoleTimelines.devicePorts)
    (h : (command curve requests a).Opens port) : ∃ r ∈ requests, r.port = port := by
  obtain ⟨i, rfl, hi⟩ := Command.opens_iff.mp h
  obtain ⟨r, hr, _⟩ : ∃ r, requests[i]? = some r ∧ valve a r = .opened := by
    simpa [command] using hi
  exact ⟨r, List.mem_of_getElem? hr, port_eq hports hr⟩

/-- What keeps a command for the requests of the five ports from doing harm. -/
structure Safe (curve : Curve) (requests : List Request) (c : Command) : Prop where
  ports : requests.map Request.port = RoleTimelines.devicePorts
  valves : c.valves.length = portCount
  stop_iff : c.action = .stop ↔ ∀ port, ¬ c.Opens port
  stop_intensity : c.action = .stop → c.intensity = 0
  /-- Nothing opens unless its own port asks for it. -/
  asked : ∀ port, c.Opens port → ∃ r ∈ requests, r.port = port ∧ r.action ≠ .noChange
  actuate_max : c.action = .actuate →
    (∃ r ∈ requests, r.action.inflates = true ∧ c.intensity = strength curve r) ∧
      ∀ r ∈ requests, r.action.inflates = true → (strength curve r : Int) ≤ c.intensity
  actuate_opens : c.action = .actuate →
    ∀ r ∈ requests, c.Opens r.port → (strength curve r : Int) ≤ c.intensity
  /-- An ornament that lets air out may cover a plain note of another port that pumps air in. -/
  release_intensity : c.action = .release → c.intensity ≠ 0 →
    settle requests = .ok .trillRelease ∧ ∃ r ∈ requests, r.action = .inflate ∧ ¬ c.Opens r.port
  intensity_level : c.intensity = 0 ∨ ∃ level, c.intensity = (curve.intensity level).val

/-- If any port pumps air in, then the intensity is what one of those asks for. -/
theorem exists_strength_eq (hr : r ∈ requests) (h : r.action.inflates = true) :
    ∃ q ∈ requests, q.action.inflates = true ∧ intensity curve requests = strength curve q := by
  by_cases hz : intensity curve requests = 0
  · have hle : strength curve r ≤ intensity curve requests := strength_le_intensity hr h
    exact ⟨r, hr, h, by omega⟩
  · exact exists_strength hz

/-- Without a port that pumps air in there is no intensity. -/
theorem intensity_eq_zero (hi : .inflate ∉ asked requests) (ht : .trillInflate ∉ asked requests) :
    intensity curve requests = 0 := by
  by_contra hne
  obtain ⟨r, hr, hin, _⟩ := exists_strength hne
  have hmem : r.action ∈ asked requests := List.mem_map_of_mem hr
  rcases Action.inflates_iff.mp hin with hact | hact
  · exact hi (hact ▸ hmem)
  · exact ht (hact ▸ hmem)

section

variable (hs : Action.Settles (asked requests) a)
include hs

/-- The action that was settled on comes from a request. -/
theorem exists_settled_request (ha : a ≠ .noChange) : ∃ r ∈ requests, r.action = a :=
  List.mem_map.mp (hs.mem ha)

/-- The pump rests exactly when all valves are closed. -/
theorem stop_iff_closed (hports : requests.map Request.port = RoleTimelines.devicePorts) :
    pumpAction a = .stop ↔ ∀ port, ¬ (command curve requests a).Opens port := by
  rw [pumpAction_eq_stop]
  constructor
  · intro ha port hopen
    obtain ⟨r, hr, rfl⟩ := exists_request hports hopen
    exact ((opens_command hports hr).mp hopen).1 ha
  · intro hclosed
    by_contra ha
    obtain ⟨r, hr, hact⟩ := exists_settled_request hs ha
    exact hclosed r.port ((opens_command hports hr).mpr ⟨ha, hact⟩)

/-- Air is let out with intensity only by an ornament, over a port that asks for air. -/
theorem exists_covered (hrel : pumpAction a = .release) (h : intensity curve requests ≠ 0) :
    a = .trillRelease ∧ ∃ r ∈ requests, r.action = .inflate := by
  rcases pumpAction_eq_release.mp hrel with rfl | rfl
  · cases hs with
    | release hti _ hi _ => exact (h (intensity_eq_zero hi hti)).elim
  · cases hs with
    | trillRelease hti _ =>
      obtain ⟨r, hr, hin, _⟩ := exists_strength h
      refine ⟨rfl, r, hr, ?_⟩
      rcases Action.inflates_iff.mp hin with hact | hact
      · exact hact
      · exact (hti (hact ▸ List.mem_map_of_mem hr)).elim

end

/-- Every command that requests of the five ports are resolved into is safe. -/
theorem safe_of_resolve (hports : requests.map Request.port = RoleTimelines.devicePorts)
    (h : resolve curve role time requests = .ok c) : Safe curve requests c := by
  obtain ⟨a, hs, ha, rfl⟩ := exists_settled h
  have hlen : requests.length = portCount := by
    rw [← List.length_map Request.port, hports]
    rfl
  have hle : ∀ r ∈ requests, r.action.inflates = true →
      (strength curve r : Int) ≤ (command curve requests a).intensity := by
    intro r hr hin
    exact Int.ofNat_le.mpr (strength_le_intensity hr hin)
  refine ⟨hports, by simpa [command] using hlen, stop_iff_closed hs hports, ?_, ?_, ?_, ?_, ?_, ?_⟩
  · intro hstop
    obtain rfl := pumpAction_eq_stop.mp hstop
    cases hs with
    | noChange hti _ hi _ => exact congrArg Int.ofNat (intensity_eq_zero hi hti)
  · intro port hopen
    obtain ⟨r, hr, rfl⟩ := exists_request hports hopen
    obtain ⟨hne, rfl⟩ := (opens_command hports hr).mp hopen
    exact ⟨r, hr, rfl, hne⟩
  · intro hact
    have hin := pumpAction_eq_actuate.mp hact
    obtain ⟨r, hr, rfl⟩ := exists_settled_request hs (by rintro rfl; cases hin)
    obtain ⟨q, hq, hqin, heq⟩ := exists_strength_eq hr hin
    exact ⟨⟨q, hq, hqin, congrArg Int.ofNat heq⟩, hle⟩
  · intro hact r hr hopen
    obtain ⟨_, rfl⟩ := (opens_command hports hr).mp hopen
    exact hle r hr (pumpAction_eq_actuate.mp hact)
  · intro hact hne
    have hnat : intensity curve requests ≠ 0 := fun hz => hne (congrArg Int.ofNat hz)
    obtain ⟨rfl, r, hr, hplain⟩ := exists_covered hs hact hnat
    refine ⟨ha, r, hr, hplain, fun hopen => ?_⟩
    have hsame := ((opens_command hports hr).mp hopen).2
    rw [hplain] at hsame
    cases hsame
  · by_cases hz : intensity curve requests = 0
    · exact Or.inl (congrArg Int.ofNat hz)
    · obtain ⟨r, _, _, heq⟩ := exists_strength hz
      exact Or.inr ⟨r.event.dynamic, congrArg Int.ofNat heq⟩

end Resolution

namespace RoleTimelines

variable {t : RoleTimelines} {ticks : List Binary64} {curve : Curve} {commands : List Command}

theorem ports_requestsAt (t : RoleTimelines) (ticks : List Binary64) (k : Nat) (tick : Binary64) :
    (t.requestsAt ticks k tick).map Request.port = devicePorts := rfl

/-- Every command of a merged role is safe. -/
theorem safe_of_merge (hticks : Axis.Ascending ticks) (h : t.merge curve ticks = .ok commands)
    {k : Nat} (hk : k < ticks.length) (hc : k < commands.length) :
    Resolution.Safe curve (t.requestsAt ticks k ticks[k]) commands[k] :=
  Resolution.safe_of_resolve (t.ports_requestsAt ticks k ticks[k])
    ((t.resolve_of_merge hticks h).2 k hk hc)

end RoleTimelines
end Bellows
