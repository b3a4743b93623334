import Mathlib.Logic.ExistsUnique
import Bellows.Proofs.Axis.SampleAndHold

/-! Resampling of events in any order on any axis. Of the events up to a tick the one on the last
tick that any of them lands on holds there, and of several on that tick the last in the list
(`resample_holds_latest`). -/
namespace Bellows.Axis

variable {ticks : List Binary64} {events : List Event} {e : Event} {t : Binary64} {i j k : Nat}

/-- The index of the tick that a time lands on: the last tick at or before it, or the first tick if
all of them come later. -/
inductive Lands (ticks : List Binary64) (t : Binary64) : Nat → Prop
  | behind (j : Nat) (hj : j < ticks.length) (hle : ticks[j].le t = true)
      (hlast : ∀ i (hi : i < ticks.length), ticks[i].le t = true → i ≤ j) : Lands ticks t j
  | front (hne : ticks ≠ []) (hlt : ∀ tick ∈ ticks, t.lt tick = true) : Lands ticks t 0

/-- An event that is still in force at the `k`-th tick: nothing lands between the tick that it
lands on and the `k`-th one, and nothing behind it in the list lands where it does. -/
structure Latest (ticks : List Binary64) (events : List Event) (k : Nat) (e : Event) (j : Nat) :
    Prop where
  le : j ≤ k
  lands : Lands ticks e.start j
  last : ∃ front back, events = front ++ e :: back ∧ ∀ f ∈ back, ¬ Lands ticks f.start j
  nothing_between : ∀ i, j < i → i ≤ k → ∀ f ∈ events, ¬ Lands ticks f.start i

/-- What is in force stays so at a tick on which nothing lands. -/
theorem Latest.succ (h : Latest ticks events k e j)
    (hnone : ∀ f ∈ events, ¬ Lands ticks f.start (k + 1)) : Latest ticks events (k + 1) e j := by
  refine ⟨Nat.le_succ_of_le h.le, h.lands, h.last, ?_⟩
  intro i hji hik
  rcases Nat.le_or_eq_of_le_succ hik with hle | rfl
  · exact h.nothing_between i hji hle
  · exact hnone

/-- The last entry of a list with a property has none of its kind behind it. -/
theorem getLast?_filter_eq_some {α : Type} {p : α → Bool} {l : List α} {a : α}
    (h : (l.filter p).getLast? = some a) :
    p a = true ∧ ∃ front back, l = front ++ a :: back ∧ ∀ b ∈ back, ¬ p b = true := by
  obtain ⟨init, hinit⟩ := List.getLast?_eq_some_iff.mp h
  obtain ⟨front, rest, rfl, _, hrest⟩ := List.filter_eq_append_iff.mp hinit
  obtain ⟨skipped, back, rfl, _, ha, hback⟩ := List.filter_eq_cons_iff.mp hrest
  refine ⟨ha, front ++ skipped, back, by simp, ?_⟩
  intro b hb
  exact List.filter_eq_nil_iff.mp hback b hb

section

variable (hinc : Increasing ticks) (hfin : ∀ tick ∈ ticks, tick.isFinite = true)
include hinc hfin

/-- The ticks at or before a time are as many as it has reached. -/
theorem le_iff_lt_reached (ht : t.isFinite = true) (hi : i < ticks.length) :
    ticks[i].le t = true ↔ i < reached ticks t := by
  have htick := hfin _ (List.getElem_mem hi)
  rw [Binary64.le_iff_rank htick ht, rank_le_iff_lt_reached hinc.ascending hi htick ht]

/-- A time lands on the last tick that it has reached, or on the first one. -/
theorem lands_iff (ht : t.isFinite = true) :
    Lands ticks t j ↔ j < ticks.length ∧ reached ticks t - 1 = j := by
  have hle {i : Nat} (hi : i < ticks.length) := le_iff_lt_reached hinc hfin ht hi
  have hlen := reached_le_length ticks t
  have hzero : reached ticks t = 0 ↔ ∀ tick ∈ ticks, t.lt tick = true := by
    rw [reached, List.countP_eq_zero]
    apply forall₂_congr
    intro tick htick
    have htickfin := hfin tick htick
    rw [Binary64.sortsBefore_iff_rank htickfin ht, Binary64.lt_iff_rank ht htickfin]
    omega
  constructor
  · rintro (⟨_, hj, hjt, hlast⟩ | ⟨hne, hlt⟩)
    · have hreached := (hle hj).mp hjt
      have htop : reached ticks t - 1 < ticks.length := by omega
      have := hlast _ htop ((hle htop).mpr (by omega))
      exact ⟨hj, by omega⟩
    · have hnone := hzero.mpr hlt
      exact ⟨List.length_pos_iff.mpr hne, by omega⟩
  · rintro ⟨hj, rfl⟩
    rcases Nat.eq_zero_or_pos (reached ticks t) with hnone | hpos
    · rw [hnone]
      exact .front (List.ne_nil_of_length_pos (by omega)) (hzero.mp hnone)
    · refine .behind _ hj ((hle hj).mpr (by omega)) ?_
      intro i hi hit
      have := (hle hi).mp hit
      omega

/-- On an axis with ticks a time lands on exactly one of them. -/
theorem existsUnique_lands (hne : ticks ≠ []) (ht : t.isFinite = true) : ∃! j, Lands ticks t j := by
  refine ⟨reached ticks t - 1, ?_, ?_⟩
  · refine (lands_iff hinc hfin ht).mpr ⟨?_, rfl⟩
    have hlen := reached_le_length ticks t
    have hpos := List.length_pos_iff.mpr hne
    omega
  · intro j hj
    exact ((lands_iff hinc hfin ht).mp hj).2.symm

variable (hevents : ∀ f ∈ events, f.start.isFinite = true)
include hevents

theorem landingOn_eq_nil (h : landingOn ticks events k = []) :
    ∀ f ∈ events, ¬ Lands ticks f.start k := by
  intro f hf hlands
  rw [lands_iff hinc hfin (hevents f hf)] at hlands
  have := List.filter_eq_nil_iff.mp h f hf
  simp [hlands.2] at this

/-- The last event that lands on a tick is in force there. -/
theorem latest_of_landingOn (hk : k < ticks.length)
    (h : (landingOn ticks events k).getLast? = some e) : Latest ticks events k e k := by
  obtain ⟨hlands, front, back, rfl, hback⟩ := getLast?_filter_eq_some h
  refine ⟨Nat.le_refl k, ?_, ⟨front, back, rfl, ?_⟩, fun i hki hik => by omega⟩
  · rw [lands_iff hinc hfin (hevents e (by simp))]
    exact ⟨hk, of_decide_eq_true hlands⟩
  · intro f hf
    rw [lands_iff hinc hfin (hevents f (by simp [hf]))]
    rintro ⟨_, hfk⟩
    exact hback f hf (decide_eq_true hfk)

/-- What is held at a tick is in force there; nothing is held as long as nothing has landed. -/
theorem held_cases (hk : k < ticks.length) :
    (∃ e j, held ticks events k = some e ∧ Latest ticks events k e j) ∨
      held ticks events k = none ∧ ∀ j ≤ k, ∀ f ∈ events, ¬ Lands ticks f.start j := by
  induction k with
  | zero =>
    rw [held_zero]
    cases hlast : (landingOn ticks events 0).getLast? with
    | some e => exact .inl ⟨e, 0, rfl, latest_of_landingOn hinc hfin hevents hk hlast⟩
    | none =>
      refine .inr ⟨rfl, ?_⟩
      intro j hj
      obtain rfl := Nat.le_zero.mp hj
      exact landingOn_eq_nil hinc hfin hevents (List.getLast?_eq_none_iff.mp hlast)
  | succ k ih =>
    rw [held_succ]
    cases hlast : (landingOn ticks events (k + 1)).getLast? with
    | some e => exact .inl ⟨e, k + 1, rfl, latest_of_landingOn hinc hfin hevents hk hlast⟩
    | none =>
      have hnone := landingOn_eq_nil hinc hfin hevents (List.getLast?_eq_none_iff.mp hlast)
      rcases ih (Nat.lt_of_succ_lt hk) with ⟨e, j, heq, hlatest⟩ | ⟨heq, hbefore⟩
      · exact .inl ⟨e, j, heq, hlatest.succ hnone⟩
      · refine .inr ⟨heq, ?_⟩
        intro j hj
        rcases Nat.le_or_eq_of_le_succ hj with hle | rfl
        · exact hbefore j hle
        · exact hnone

end

/-- Resampling. Every event lands on exactly one tick. There is one event for each tick, at the
time of the tick: the one in force there, or the idle one as long as nothing has landed. -/
theorem resample_holds_latest (hinc : Increasing ticks)
    (hfin : ∀ tick ∈ ticks, tick.isFinite = true)
    (hevents : ∀ f ∈ events, f.start.isFinite = true) :
    (ticks ≠ [] → ∀ f ∈ events, ∃! j, Lands ticks f.start j) ∧
    (resample events ticks).length = ticks.length ∧
    ∀ k (hk : k < ticks.length), ∃ e, (resample events ticks)[k]? = some (e.at ticks[k]) ∧
      ((∃ j, Latest ticks events k e j) ∨
        e = .idle ∧ ∀ j ≤ k, ∀ f ∈ events, ¬ Lands ticks f.start j) := by
  have heq := resample_eq hinc.ascending events
  refine ⟨?_, by simp [heq], ?_⟩
  · intro hne f hf
    exact existsUnique_lands hinc hfin hne (hevents f hf)
  · intro k hk
    refine ⟨(held ticks events k).getD .idle, by simp [heq, hk], ?_⟩
    rcases held_cases hinc hfin hevents hk with ⟨e, j, hheld, hlatest⟩ | ⟨hheld, hnone⟩
    · rw [hheld]
      exact .inl ⟨j, hlatest⟩
    · rw [hheld]
      exact .inr ⟨rfl, hnone⟩

/-- Events out of order: two on the second tick, one in front of all ticks and one behind them. -/
def scattered : List Event :=
  [⟨.ofNat 9, .release, .p, 2, some 0⟩, ⟨.ofNat 4, .inflate, .f, 1, some 1⟩,
    ⟨.zero, .trillInflate, .mp, 1, some 0⟩, ⟨.ofNat 3, .noChange, .mf, 1, none⟩]

/-- The ticks that the scattered events are put on. -/
def sparseTicks : List Binary64 := [.ofNat 1, .ofNat 3, .ofNat 5, .ofNat 8]

theorem increasing_sparseTicks : Increasing sparseTicks := by decide +kernel

/-- The first tick has the event in front of all ticks, and the third what the second holds. -/
example : resample scattered sparseTicks =
    [⟨.ofNat 1, .trillInflate, .mp, 1, some 0⟩, ⟨.ofNat 3, .noChange, .mf, 1, none⟩,
      ⟨.ofNat 5, .noChange, .mf, 1, none⟩, ⟨.ofNat 8, .release, .p, 2, some 0⟩] := by
  rw [resample_eq increasing_sparseTicks.ascending]
  decide +kernel

theorem resample_holds_latest_scattered : Increasing sparseTicks ∧
    (∀ tick ∈ sparseTicks, tick.isFinite = true) ∧
    (∀ f ∈ scattered, f.start.isFinite = true) ∧
    (∀ f ∈ scattered, ∃! j, Lands sparseTicks f.start j) ∧
    (resample scattered sparseTicks).length = 4 ∧
    ∀ k (hk : k < sparseTicks.length), ∃ e,
      (resample scattered sparseTicks)[k]? = some (e.at sparseTicks[k]) ∧
        ((∃ j, Latest sparseTicks scattered k e j) ∨
          e = .idle ∧ ∀ j ≤ k, ∀ f ∈ scattered, ¬ Lands sparseTicks f.start j) := by
  have hfin : ∀ tick ∈ sparseTicks, tick.isFinite = true := by decide +kernel
  have hevents : ∀ f ∈ scattered, f.start.isFinite = true := by decide +kernel
  obtain ⟨hlands, hlength, hholds⟩ := resample_holds_latest increasing_sparseTicks hfin hevents
  exact ⟨increasing_sparseTicks, hfin, hevents, hlands (List.cons_ne_nil _ _), hlength, hholds⟩

end Bellows.Axis
