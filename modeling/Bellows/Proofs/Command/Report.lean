import Mathlib.Data.List.Perm.Subperm
import Bellows.Proofs.Command.Merge

/-! Reported conflicts: the two opposed actions, the ports that ask for them, and the events behind
each of those ports. -/
namespace Bellows

/-- The two sides of a contradiction. -/
inductive Action.Opposed : Action → Action → Prop
  | plain : Opposed .inflate .release
  | ornament : Opposed .trillInflate .trillRelease

namespace Action.Opposed

variable {a b : Action}

theorem ne (h : Opposed a b) : a ≠ b := by
  cases h <;> decide

theorem ne_noChange (h : Opposed a b) : a ≠ .noChange ∧ b ≠ .noChange := by
  cases h <;> decide

end Action.Opposed

namespace Resolution

variable {requests : List Request} {pair : Action × Action} {a : Action} {curve : Curve}
  {role : String} {time : Binary64} {c : Conflict} {s : ConflictSite}

/-- Requests that cannot be settled ask for both sides of a contradiction. -/
theorem opposed_of_settle (h : settle requests = .error pair) :
    Action.Opposed pair.1 pair.2 ∧ pair.1 ∈ asked requests ∧ pair.2 ∈ asked requests := by
  obtain ⟨a, b⟩ := pair
  cases clash_of_settle h with
  | ornament hti htr => exact ⟨.ornament, hti, htr⟩
  | plain _ _ hi hr => exact ⟨.plain, hi, hr⟩

theorem conflict_of_resolve (h : resolve curve role time requests = .error c) :
    ∃ pair, settle requests = .error pair ∧ c = ⟨role, time, sites requests pair⟩ := by
  unfold resolve at h
  cases hs : settle requests with
  | ok a =>
    rw [hs] at h
    cases h
  | error pair =>
    rw [hs] at h
    cases h
    exact ⟨pair, rfl, rfl⟩

/-- A site stands for a request for one of the two sides. -/
theorem mem_sites : s ∈ sites requests pair ↔
    ∃ r ∈ requests, (r.action = pair.1 ∨ r.action = pair.2) ∧ site r = s := by
  simp [sites, and_assoc]

theorem exists_site (h : a ∈ asked requests) (ha : a = pair.1 ∨ a = pair.2) :
    ∃ s ∈ sites requests pair, s.action = a := by
  obtain ⟨r, hr, rfl⟩ := List.mem_map.mp h
  exact ⟨site r, mem_sites.mpr ⟨r, hr, ha, rfl⟩, rfl⟩

/-- The ports of the sites are among those of the requests, in the same order. -/
theorem sublist_sites (requests : List Request) (pair : Action × Action) :
    ((sites requests pair).map ConflictSite.port).Sublist (requests.map Request.port) := by
  rw [sites, List.map_map]
  exact List.filter_sublist.map Request.port

/-- A conflict has sites on both sides, so it has at least two. -/
theorem two_le_length_sites (h : settle requests = .error pair) :
    2 ≤ (sites requests pair).length := by
  obtain ⟨hopposed, hleft, hright⟩ := opposed_of_settle h
  obtain ⟨s, hs, hsa⟩ := exists_site hleft (Or.inl rfl)
  obtain ⟨u, hu, hua⟩ := exists_site hright (Or.inr rfl)
  have hne : s ≠ u := by
    rintro rfl
    exact hopposed.ne (hsa.symm.trans hua)
  have hsub : [s, u] ⊆ sites requests pair := List.cons_subset.mpr
    ⟨hs, List.cons_subset.mpr ⟨hu, List.nil_subset _⟩⟩
  have hnodup : [s, u].Nodup := List.nodup_cons.mpr
    ⟨fun hmem => hne (List.mem_singleton.mp hmem), List.nodup_singleton u⟩
  exact (hnodup.subperm hsub).length_le

end Resolution

namespace Axis

variable {ticks : List Binary64} {events : List Event} {k : Nat} {e : Event}

/-- Only what has landed is held. -/
theorem mem_of_held (h : held ticks events k = some e) : e ∈ events := by
  obtain ⟨j, _, hj⟩ := List.mem_filterMap.mp (List.mem_of_getLast? h)
  exact List.mem_of_mem_filter (List.mem_of_getLast? hj)

end Axis

namespace RoleTimelines

variable {t : RoleTimelines} {ticks : List Binary64} {curve : Curve} {c : Conflict} {k : Nat}
  {tick : Binary64} {r : Request}

/-- The conflict of a merged role is that of the requests at one of its ticks. -/
theorem conflict_of_merge (h : Axis.Ascending ticks) (hm : t.merge curve ticks = .error c) :
    ∃ k tick pair, ticks[k]? = some tick ∧
      Resolution.settle (t.requestsAt ticks k tick) = .error pair ∧
      c = ⟨t.role, tick, Resolution.sites (t.requestsAt ticks k tick) pair⟩ := by
  rw [merge_eq t h] at hm
  obtain ⟨p, hp, hresolve⟩ := exists_of_mapM_eq_error hm
  obtain ⟨k, hk, rfl⟩ := List.mem_mapIdx.mp hp
  obtain ⟨pair, hsettle, hc⟩ := Resolution.conflict_of_resolve hresolve
  exact ⟨k, ticks[k], pair, List.getElem?_eq_getElem hk, hsettle, hc⟩

/-- A port that asks for something is driven by a part, and asks for what an event of it asks. -/
theorem exists_event_of_request (hports : (t.ports.map PortTimeline.port).Nodup)
    (hr : r ∈ t.requestsAt ticks k tick) (hact : r.action ≠ .noChange) :
    ∃ p ∈ t.ports, r.port = p.port ∧ r.part = some p.part ∧
      ∃ e ∈ p.events, r.event = e.at tick := by
  obtain ⟨port, _, rfl⟩ := List.mem_map.mp hr
  change (t.heldBy ticks port k).action ≠ .noChange at hact
  unfold heldBy at hact ⊢
  rw [eventsFor?_of_nodup t hports] at hact ⊢
  cases hfind : t.ports.find? fun p => p.port = port with
  | none =>
    rw [hfind] at hact
    exact absurd (by simp [Axis.held, Axis.landingOn, Event.idle]) hact
  | some p =>
    rw [hfind] at hact
    have hport : p.port = port := by simpa using List.find?_some hfind
    refine ⟨p, List.mem_of_find?_eq_some hfind, hport.symm, ?_, ?_⟩
    · rw [partFor?, hfind]
      rfl
    · cases hheld : Axis.held ticks p.events k with
      | none =>
        rw [Option.map_some, Option.getD_some, hheld] at hact
        exact (hact rfl).elim
      | some e =>
        refine ⟨e, Axis.mem_of_held hheld, ?_⟩
        rw [Option.map_some, Option.getD_some, hheld]
        rfl

/-- The ports of a conflict stand in their order, and each of them once. -/
theorem ports_ascending (ticks : List Binary64) (k : Nat) (tick : Binary64)
    (pair : Action × Action) :
    ((Resolution.sites (t.requestsAt ticks k tick) pair).map ConflictSite.port).Pairwise
      (· < ·) := by
  have hdevice : devicePorts.Pairwise (· < ·) := by decide
  exact hdevice.sublist (Resolution.sublist_sites (t.requestsAt ticks k tick) pair)

end RoleTimelines
end Bellows
