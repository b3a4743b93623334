import Bellows.Command.Resolution

/-! Settling the requests of one tick: the decision table as a relation, and what a command says
about the requests that it was made for. -/
namespace Bellows

/-- Two sides that ask for opposite actions; plain actions count only without an ornament. -/
def Action.Contradict (asked : List Action) : Prop :=
  (.trillInflate ∈ asked ∧ .trillRelease ∈ asked) ∨
    (.trillInflate ∉ asked ∧ .trillRelease ∉ asked ∧ .inflate ∈ asked ∧ .release ∈ asked)

instance (asked : List Action) : Decidable (Action.Contradict asked) := by
  unfold Action.Contradict
  infer_instance

/-- The two actions of a contradiction. Plain ones are blamed only where no ornament plays. -/
inductive Action.Clash (asked : List Action) : Action → Action → Prop
  | ornament : .trillInflate ∈ asked → .trillRelease ∈ asked →
      Clash asked .trillInflate .trillRelease
  | plain : .trillInflate ∉ asked → .trillRelease ∉ asked → .inflate ∈ asked → .release ∈ asked →
      Clash asked .inflate .release

theorem Action.Clash.contradict {asked : List Action} {a b : Action}
    (h : Action.Clash asked a b) : Action.Contradict asked := by
  cases h with
  | ornament hti htr => exact Or.inl ⟨hti, htr⟩
  | plain hti htr hi hr => exact Or.inr ⟨hti, htr, hi, hr⟩

/-- The decision table: an ornament overrules plain actions, any action overrules none. -/
inductive Action.Settles (asked : List Action) : Action → Prop
  | trillInflate : .trillInflate ∈ asked → .trillRelease ∉ asked → Settles asked .trillInflate
  | trillRelease : .trillInflate ∉ asked → .trillRelease ∈ asked → Settles asked .trillRelease
  | inflate : .trillInflate ∉ asked → .trillRelease ∉ asked → .inflate ∈ asked →
      .release ∉ asked → Settles asked .inflate
  | release : .trillInflate ∉ asked → .trillRelease ∉ asked → .inflate ∉ asked →
      .release ∈ asked → Settles asked .release
  | noChange : .trillInflate ∉ asked → .trillRelease ∉ asked → .inflate ∉ asked →
      .release ∉ asked → Settles asked .noChange

namespace Resolution

variable {requests : List Request} {a b : Action} {r : Request} {c : Command} {curve : Curve}
  {role : String} {time : Binary64}

/-- The actions that are asked for. -/
def asked (requests : List Request) : List Action := requests.map Request.action

theorem asks_iff : asks requests a = true ↔ a ∈ asked requests := by
  simp [asks, asked]

/-- Requests are settled as the table says, or two of their actions clash. -/
theorem settle_cases (requests : List Request) :
    (∃ a, settle requests = .ok a ∧ Action.Settles (asked requests) a) ∨
      (∃ a b, settle requests = .error (a, b) ∧ Action.Clash (asked requests) a b) := by
  simp only [settle, asks_iff]
  by_cases hti : .trillInflate ∈ asked requests
  · by_cases htr : .trillRelease ∈ asked requests
    · exact Or.inr ⟨_, _, by rw [if_pos hti, if_pos htr], .ornament hti htr⟩
    · exact Or.inl ⟨_, by rw [if_pos hti, if_neg htr], .trillInflate hti htr⟩
  · by_cases htr : .trillRelease ∈ asked requests
    · exact Or.inl ⟨_, by rw [if_neg hti, if_pos htr], .trillRelease hti htr⟩
    · rw [if_neg hti, if_neg htr]
      by_cases hi : .inflate ∈ asked requests
      · by_cases hr : .release ∈ asked requests
        · exact Or.inr ⟨_, _, by rw [if_pos hi, if_pos hr], .plain hti htr hi hr⟩
        · exact Or.inl ⟨_, by rw [if_pos hi, if_neg hr], .inflate hti htr hi hr⟩
      · by_cases hr : .release ∈ asked requests
        · exact Or.inl ⟨_, by rw [if_neg hi, if_pos hr], .release hti htr hi hr⟩
        · exact Or.inl ⟨_, by rw [if_neg hi, if_neg hr], .noChange hti htr hi hr⟩

/-- The table has no row for a contradiction. -/
theorem not_contradict_of_settles {actions : List Action} (h : Action.Settles actions a) :
    ¬ Action.Contradict actions := by
  rintro (⟨hti, htr⟩ | ⟨hti, htr, hi, hr⟩) <;> cases h <;> contradiction

theorem settles_of_settle (h : settle requests = .ok a) : Action.Settles (asked requests) a := by
  obtain ⟨b, hb, hs⟩ | ⟨_, _, hp, _⟩ := settle_cases requests
  · rw [h] at hb
    cases hb
    exact hs
  · rw [h] at hp
    cases hp

theorem clash_of_settle (h : settle requests = .error (a, b)) :
    Action.Clash (asked requests) a b := by
  obtain ⟨_, ha, _⟩ | ⟨_, _, hp, hclash⟩ := settle_cases requests
  · rw [h] at ha
    cases ha
  · rw [h] at hp
    cases hp
    exact hclash

/-- Without a contradiction there is a command. -/
theorem exists_resolve_eq_ok (curve : Curve) (role : String) (time : Binary64)
    (h : ¬ Action.Contradict (asked requests)) :
    ∃ c, resolve curve role time requests = .ok c := by
  obtain ⟨a, ha, _⟩ | ⟨_, _, _, hclash⟩ := settle_cases requests
  · exact ⟨_, by rw [resolve, ha]⟩
  · exact (h hclash.contradict).elim

/-- A contradiction is reported at its time. -/
theorem exists_resolve_eq_error (curve : Curve) (role : String) (time : Binary64)
    (h : Action.Contradict (asked requests)) :
    ∃ c, resolve curve role time requests = .error c ∧ c.time = time := by
  obtain ⟨a, _, hs⟩ | ⟨_, _, hp, _⟩ := settle_cases requests
  · exact (not_contradict_of_settles hs h).elim
  · exact ⟨_, by rw [resolve, hp], rfl⟩

/-- What a command is made of: the settled action decides the pump and the valves. -/
theorem exists_settled (h : resolve curve role time requests = .ok c) :
    ∃ a, Action.Settles (asked requests) a ∧ settle requests = .ok a ∧
      c = command curve requests a := by
  unfold resolve at h
  cases ha : settle requests with
  | error pair =>
    rw [ha] at h
    cases h
  | ok a =>
    rw [ha] at h
    cases h
    exact ⟨a, settles_of_settle ha, rfl, rfl⟩

theorem le_foldl_max (l : List Nat) (m : Nat) : m ≤ l.foldl max m ∧ ∀ x ∈ l, x ≤ l.foldl max m := by
  induction l generalizing m with
  | nil => simp
  | cons y l ih =>
    obtain ⟨hm, hl⟩ := ih (max m y)
    refine ⟨by rw [List.foldl_cons]; omega, fun x hx => ?_⟩
    rw [List.foldl_cons]
    rcases List.mem_cons.mp hx with rfl | hx
    · omega
    · exact hl x hx

theorem foldl_max_mem (l : List Nat) (m : Nat) : l.foldl max m = m ∨ l.foldl max m ∈ l := by
  induction l generalizing m with
  | nil => simp
  | cons y l ih =>
    rw [List.foldl_cons]
    rcases ih (max m y) with h | h
    · rw [h, List.mem_cons]
      omega
    · exact Or.inr (List.mem_cons_of_mem _ h)

/-- How strongly a request asks for air. -/
def strength (curve : Curve) (r : Request) : Nat := (curve.intensity r.event.dynamic).val

theorem intensity_eq (curve : Curve) (requests : List Request) :
    intensity curve requests =
      ((requests.filter fun r => r.action.inflates).map (strength curve)).foldl max 0 := rfl

theorem strength_le_intensity (hr : r ∈ requests) (h : r.action.inflates = true) :
    strength curve r ≤ intensity curve requests := by
  rw [intensity_eq]
  exact (le_foldl_max _ 0).2 _ (List.mem_map_of_mem (List.mem_filter.mpr ⟨hr, h⟩))

/-- The intensity is the strength of a request that pumps air in, if there is one. -/
theorem exists_strength (h : intensity curve requests ≠ 0) :
    ∃ r ∈ requests, r.action.inflates = true ∧ intensity curve requests = strength curve r := by
  rcases foldl_max_mem ((requests.filter fun r => r.action.inflates).map (strength curve)) 0
    with hz | hmem
  · exact (h hz).elim
  · obtain ⟨r, hr, heq⟩ := List.mem_map.mp hmem
    obtain ⟨hr, hin⟩ := List.mem_filter.mp hr
    exact ⟨r, hr, hin, by rw [intensity_eq, heq]⟩

end Resolution
end Bellows
