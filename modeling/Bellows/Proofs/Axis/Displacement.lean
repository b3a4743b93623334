import Mathlib.Data.Finset.Card
import Mathlib.Tactic.Linarith
import Bellows.Proofs.Axis.Heads
import Bellows.Proofs.Binary64.HalfUp

/-! How far events are moved when they land. A run of start times goes on as long as each one comes
close behind another, and all events of a run land on its head; so an event is moved by as many
tolerances as there are other times in front of it in its run (`landings_displaced`). -/
namespace Bellows

namespace Binary64

variable {n r : Nat}

/-- What rounds to a number at most exceeds it by half of the last of its 53 bits at most. -/
theorem mul_le_of_nearest_le (h : nearest n 1 ≤ r) : 2 ^ 53 * n ≤ (2 ^ 53 + 1) * r := by
  have hhalf := two_mul_le_nearest n
  by_cases hspare : spareBits n = 0
  · rw [spacing_of_spareBits hspare] at hhalf
    omega
  · have hkept : 2 ^ 52 * spacing n ≤ nearest n 1 := by
      have hspare' : spareBits (n / 1) ≠ 0 := by rwa [Nat.div_one]
      have hle : Nat.pow 2 52 ≤ roundHalfEven n (1 * spacing (n / 1)) := le_kept hspare'
      rw [nearest, Nat.div_one] at *
      exact Nat.mul_le_mul_right (spacing n) hle
    omega

end Binary64

namespace Axis

variable {tolerance a b c s t : Binary64} {times ticks : List Binary64} {lists : List (List Event)}

/-- No gap among some times from one moment to another: each time behind the first moment comes
close behind one that is not in front of it. -/
def Linked (tolerance : Binary64) (times : List Binary64) (a b : Binary64) : Prop :=
  ∀ t ∈ times, a.lt t = true → t.le b = true →
    ∃ s ∈ times, a.le s = true ∧ s.lt t = true ∧ Close tolerance s t

instance (tolerance : Binary64) (times : List Binary64) (a b : Binary64) :
    Decidable (Linked tolerance times a b) := by
  unfold Linked
  infer_instance

/-- The ranks of some times behind one moment and up to another. -/
def ranksBetween (times : List Binary64) (a b : Binary64) : Finset Int :=
  (times.map Binary64.rank).toFinset.filter fun r => a.rank < r ∧ r ≤ b.rank

/-- A time that lands on a tick. It is close to the tick unless other times lie between them, and
then it is moved by no more than a tolerance for each different time behind the tick; the
tolerance counts with what subtraction may round away. -/
structure LandsOn (tolerance : Binary64) (times : List Binary64) (c t : Binary64) : Prop where
  le : c.le t = true
  linked : Linked tolerance times c t
  close : (∀ s ∈ times, c.lt s = true → s.lt t = false) → Close tolerance c t
  displaced : 2 ^ 53 * (t.rank - c.rank) ≤
    (ranksBetween times c t).card * ((2 ^ 53 + 1) * tolerance.rank)

/-- Close times lie no further apart than the tolerance and what subtraction may round away. -/
theorem Close.rank_sub_le (htol : tolerance.isFinite = true) (hs : s.isFinite = true)
    (ht : t.isFinite = true) (hlt : s.rank < t.rank) (h : Close tolerance s t) :
    2 ^ 53 * (t.rank - s.rank) ≤ (2 ^ 53 + 1) * tolerance.rank := by
  rw [close_iff (Binary64.isNan_of_isFinite htol) hs ht] at h
  obtain ⟨n, hn⟩ : ∃ n : Nat, t.rank - s.rank = n := ⟨(t.rank - s.rank).toNat, by omega⟩
  have hround : Binary64.roundGrains n = min (Binary64.nearest n 1) Binary64.ceiling := by
    have hneg : ¬ (n : Int) < 0 := by omega
    rw [Binary64.roundGrains, Int.natAbs_natCast, decide_eq_false hneg]
    rfl
  obtain ⟨r, hr, hrank⟩ : ∃ r < Binary64.ceiling, tolerance.rank ≤ r := by
    obtain ⟨sign, r, hr, rfl⟩ := Binary64.exists_finite htol
    refine ⟨r, hr.1, ?_⟩
    cases sign with
    | false => exact Int.le_refl _
    | true =>
      change -(r : Int) ≤ r
      omega
  have hnearest : (Binary64.nearest n 1 : Int) ≤ tolerance.rank := by
    rw [hn, hround] at h
    omega
  obtain ⟨m, hm⟩ : ∃ m : Nat, tolerance.rank = m := ⟨tolerance.rank.toNat, by omega⟩
  have hbound : 2 ^ 53 * n ≤ (2 ^ 53 + 1) * m := by
    apply Binary64.mul_le_of_nearest_le
    omega
  rw [hn, hm]
  exact_mod_cast hbound

/-- Behind a moment, an earlier time has fewer times in front of it. -/
theorem card_ranksBetween_lt (ht : t ∈ times) (has : a.rank < t.rank) (hst : s.rank < t.rank) :
    (ranksBetween times a s).card < (ranksBetween times a t).card := by
  apply Finset.card_lt_card
  apply Finset.ssubset_iff_subset_ne.mpr
  constructor
  · intro r hr
    obtain ⟨hmem, hlt, hle⟩ := Finset.mem_filter.mp hr
    exact Finset.mem_filter.mpr ⟨hmem, hlt, by omega⟩
  · intro heq
    have hmem : t.rank ∈ ranksBetween times a t := by
      refine Finset.mem_filter.mpr ⟨?_, has, Int.le_refl _⟩
      exact List.mem_toFinset.mpr (List.mem_map_of_mem ht)
    rw [← heq] at hmem
    have := (Finset.mem_filter.mp hmem).2.2
    omega

section

variable (hfin : ∀ t ∈ times, t.isFinite = true)
include hfin

/-- Behind the same moment an earlier time is linked as well. -/
theorem Linked.of_le (hb : b ∈ times) (ht : t ∈ times) (htb : t.rank ≤ b.rank)
    (h : Linked tolerance times a b) : Linked tolerance times a t := by
  intro u hu hau hut
  apply h u hu hau
  rw [Binary64.le_iff_rank (hfin u hu) (hfin t ht)] at hut
  rw [Binary64.le_iff_rank (hfin u hu) (hfin b hb)]
  omega

/-- Linked times lie no further apart than the tolerance for each time on the way. -/
theorem Linked.rank_sub_le (htol : tolerance.isFinite = true) (hzero : 0 ≤ tolerance.rank)
    (ha : a ∈ times) (hb : b ∈ times) (hab : a.rank ≤ b.rank) (h : Linked tolerance times a b) :
    2 ^ 53 * (b.rank - a.rank) ≤
      (ranksBetween times a b).card * ((2 ^ 53 + 1) * tolerance.rank) := by
  generalize hcard : (ranksBetween times a b).card = n
  induction n using Nat.strong_induction_on generalizing b with
  | _ n ih =>
    rcases Int.lt_or_eq_of_le hab with hlt | heq
    · have hbehind := (Binary64.lt_iff_rank (hfin a ha) (hfin b hb)).mpr hlt
      obtain ⟨s, hs, has, hsb, hclose⟩ := h b hb hbehind (Binary64.le_self (hfin b hb))
      rw [Binary64.le_iff_rank (hfin a ha) (hfin s hs)] at has
      rw [Binary64.lt_iff_rank (hfin s hs) (hfin b hb)] at hsb
      have hfewer := card_ranksBetween_lt hb hlt hsb
      rw [hcard] at hfewer
      have hfront := ih _ hfewer hs has (h.of_le hfin hb hs (by omega)) rfl
      have hstep := hclose.rank_sub_le htol (hfin s hs) (hfin b hb) hsb
      generalize (ranksBetween times a s).card = k at hfewer hfront
      have hmore : ((k : Int) + 1) * ((2 ^ 53 + 1) * tolerance.rank) ≤
          n * ((2 ^ 53 + 1) * tolerance.rank) :=
        Int.mul_le_mul_of_nonneg_right (by omega) (by omega)
      rw [Int.add_mul, Int.one_mul] at hmore
      omega
    · have hnonneg : (0 : Int) ≤ n * ((2 ^ 53 + 1) * tolerance.rank) :=
        Int.mul_nonneg (by omega) (by omega)
      omega

/-- Times are linked as long as no tick comes between them. -/
theorem IsAxis.linked_iff (h : IsAxis tolerance times ticks) (htol : tolerance.isNan = false)
    (ha : a ∈ times) (hb : b ∈ times) :
    Linked tolerance times a b ↔ ∀ u ∈ ticks, u.rank ≤ b.rank → u.rank ≤ a.rank := by
  constructor
  · intro hlinked u hu hub
    have hufin := hfin u (h.mem u hu)
    by_contra hau
    obtain ⟨s, hs, _, hsu, hclose⟩ := hlinked u (h.mem u hu)
      ((Binary64.lt_iff_rank (hfin a ha) hufin).mpr (Int.lt_of_not_ge hau))
      ((Binary64.le_iff_rank hufin (hfin b hb)).mpr hub)
    exact h.leads u hu s hs hsu hclose
  · intro hticks t ht hat htb
    rw [Binary64.lt_iff_rank (hfin a ha) (hfin t ht)] at hat
    rw [Binary64.le_iff_rank (hfin t ht) (hfin b hb)] at htb
    have hfollows : ¬ Leads tolerance times t := by
      intro hleads
      obtain ⟨u, hu, hut⟩ := h.complete t ht hleads
      have hrank := (Binary64.same_iff.mp hut).2.2
      have := hticks u hu (by omega)
      omega
    obtain ⟨s, hs, hst, hclose⟩ : ∃ s ∈ times, s.lt t = true ∧ Close tolerance s t := by
      simpa [Leads] using hfollows
    rcases Int.lt_or_le s.rank a.rank with hsa | has
    · refine ⟨a, ha, ?_, ?_, hclose.of_le htol (hfin s hs) (hfin a ha) (hfin t ht) (by omega)⟩
      · exact Binary64.le_self (hfin a ha)
      · exact (Binary64.lt_iff_rank (hfin a ha) (hfin t ht)).mpr hat
    · exact ⟨s, hs, (Binary64.le_iff_rank (hfin a ha) (hfin s hs)).mpr has, hst, hclose⟩

/-- The ticks at or before a time are the first ones, as many as it has reached. -/
theorem tick_le_iff (ht : t ∈ times) {i : Nat} (hi : i < (ofTimes tolerance times).length) :
    (ofTimes tolerance times)[i].rank ≤ t.rank ↔ i < reached (ofTimes tolerance times) t := by
  have hmem := mem_of_mem_ofTimes (List.getElem_mem hi)
  exact rank_le_iff_lt_reached (ascending_ofTimes tolerance times) hi (hfin _ hmem) (hfin t ht)

variable (hzero : Binary64.zero.le tolerance = true)
include hzero

/-- Two times reach the same tick as long as they are linked. -/
theorem reached_eq_iff_linked (ha : a ∈ times) (hb : b ∈ times) (hab : a.rank ≤ b.rank) :
    reached (ofTimes tolerance times) a - 1 = reached (ofTimes tolerance times) b - 1 ↔
      Linked tolerance times a b := by
  have hposa : 0 < reached (ofTimes tolerance times) a := reached_pos hfin ha
  have hposb : 0 < reached (ofTimes tolerance times) b := reached_pos hfin hb
  rw [(isAxis_ofTimes hzero hfin).linked_iff hfin (isNan_of_zero_le hzero) ha hb]
  constructor
  · intro heq u hu hub
    obtain ⟨i, hi, rfl⟩ := List.mem_iff_getElem.mp hu
    rw [tick_le_iff hfin hb hi] at hub
    rw [tick_le_iff hfin ha hi]
    omega
  · intro hticks
    have hmono : reached (ofTimes tolerance times) a ≤ reached (ofTimes tolerance times) b :=
      reached_mono ((Binary64.sortsBefore_iff_rank (hfin a ha) (hfin b hb)).mpr hab)
    by_contra hne
    have hlt : reached (ofTimes tolerance times) a < reached (ofTimes tolerance times) b := by omega
    have hi := Nat.lt_of_lt_of_le hlt (reached_le_length _ b)
    have hle := hticks _ (List.getElem_mem hi) ((tick_le_iff hfin hb hi).mpr hlt)
    exact Nat.lt_irrefl _ ((tick_le_iff hfin ha hi).mp hle)

/-- Each of the times lands on the head of its run. -/
theorem exists_landsOn (htol : tolerance.isFinite = true) (ht : t ∈ times) :
    ∃ c, (ofTimes tolerance times)[reached (ofTimes tolerance times) t - 1]? = some c ∧
      LandsOn tolerance times c t := by
  have hnan := isNan_of_zero_le hzero
  have hpos : 0 < reached (ofTimes tolerance times) t := reached_pos hfin ht
  have hj : reached (ofTimes tolerance times) t - 1 < (ofTimes tolerance times).length := by
    have := reached_le_length (ofTimes tolerance times) t
    omega
  have hc := mem_of_mem_ofTimes (List.getElem_mem hj)
  have hle := (tick_le_iff hfin ht hj).mpr (by omega)
  have hlinked : Linked tolerance times (ofTimes tolerance times)[reached _ t - 1] t := by
    rw [(isAxis_ofTimes hzero hfin).linked_iff hfin hnan hc ht]
    intro u hu hut
    obtain ⟨i, hi, rfl⟩ := List.mem_iff_getElem.mp hu
    rw [tick_le_iff hfin ht hi] at hut
    exact (increasing_ofTimes hzero hfin).rank_le (by omega) hj
  have htolerance : 0 ≤ tolerance.rank := (Binary64.le_iff.mp hzero).2.2
  refine ⟨_, List.getElem?_eq_getElem hj, ?_, hlinked, ?_, ?_⟩
  · exact (Binary64.le_iff_rank (hfin _ hc) (hfin t ht)).mpr hle
  · intro hbetween
    rcases Int.lt_or_eq_of_le hle with hlt | heq
    · obtain ⟨s, hs, hcs, hst, hclose⟩ := hlinked t ht
        ((Binary64.lt_iff_rank (hfin _ hc) (hfin t ht)).mpr hlt)
        (Binary64.le_self (hfin t ht))
      have hsc : ¬ (ofTimes tolerance times)[reached _ t - 1].lt s = true := by
        intro hcs
        have := hbetween s hs hcs
        simp [hst] at this
      rw [Binary64.lt_iff_rank (hfin _ hc) (hfin s hs)] at hsc
      exact hclose.of_le hnan (hfin s hs) (hfin _ hc) (hfin t ht) (by omega)
    · rw [close_iff hnan (hfin _ hc) (hfin t ht), heq, Int.sub_self, Binary64.roundGrains_zero]
      exact htolerance
  · exact hlinked.rank_sub_le hfin htol htolerance hc ht hle

end

/-- Where the events of some lists land on their axis. Each lands on a tick at or before its start,
which is close to it where no other start lies between them; in general it is moved by no more than
a tolerance for each different start behind the tick. Two events land on one tick as long as the
starts on the way from one to the other leave no gap. -/
theorem landings_displaced (htol : tolerance.isFinite = true)
    (hzero : Binary64.zero.le tolerance = true)
    (hfin : ∀ events ∈ lists, ∀ e ∈ events, e.start.isFinite = true) :
    (∀ events ∈ lists, (landed (ofEvents tolerance lists) events).map Prod.snd = events ∧
      ∀ p ∈ landed (ofEvents tolerance lists) events,
        ∃ c, (ofEvents tolerance lists)[p.1]? = some c ∧
          LandsOn tolerance (lists.flatten.map Event.start) c p.2.start) ∧
    ∀ events ∈ lists, ∀ events' ∈ lists,
      ∀ p ∈ landed (ofEvents tolerance lists) events,
      ∀ q ∈ landed (ofEvents tolerance lists) events', p.2.start.le q.2.start = true →
        (p.1 = q.1 ↔ Linked tolerance (lists.flatten.map Event.start) p.2.start q.2.start) := by
  have hstarts := isFinite_of_mem_starts hfin
  have hmem : ∀ events ∈ lists, ∀ e ∈ events, e.start ∈ lists.flatten.map Event.start := by
    intro events hevents e he
    exact List.mem_map_of_mem (List.mem_flatten_of_mem hevents he)
  have hlanded (events : List Event) : landed (ofEvents tolerance lists) events =
      events.map fun e => (reached (ofEvents tolerance lists) e.start - 1, e) :=
    landed_eq (ascending_ofTimes tolerance _) events
  constructor
  · intro events hevents
    rw [hlanded, List.map_map]
    refine ⟨List.map_id _, ?_⟩
    intro p hp
    obtain ⟨e, he, rfl⟩ := List.mem_map.mp hp
    exact exists_landsOn hstarts hzero htol (hmem events hevents e he)
  · intro events hevents events' hevents' p hp q hq hle
    rw [hlanded] at hp hq
    obtain ⟨e, he, rfl⟩ := List.mem_map.mp hp
    obtain ⟨f, hf, rfl⟩ := List.mem_map.mp hq
    have hestart := hmem events hevents e he
    have hfstart := hmem events' hevents' f hf
    rw [Binary64.le_iff_rank (hstarts _ hestart) (hstarts _ hfstart)] at hle
    exact reached_eq_iff_linked hstarts hzero hestart hfstart hle

/-- The first port's second event lands on its first tick, half a tolerance further off than the
tolerance, and takes the place of the first one: the other port's start is on the way. -/
theorem displaced_beyond_tolerance :
    Binary64.zero.le defaultTolerance = true ∧
    (∀ events ∈ denseStarts, ∀ e ∈ events, e.start.isFinite = true) ∧
    ofEvents defaultTolerance denseStarts = [.zero, .ofNat 4] ∧
    densePort ∈ denseStarts ∧
    landed (ofEvents defaultTolerance denseStarts) densePort =
      [(0, ⟨.zero, .inflate, .f, 1, some 0⟩),
        (0, ⟨.ofRatio false 3 2, .release, .f, 1, some 1⟩),
        (1, ⟨.ofNat 4, .noChange, .f, 1, none⟩)] ∧
    ¬ Close defaultTolerance .zero (.ofRatio false 3 2) := by
  have hlanded : landed (ofEvents defaultTolerance denseStarts) densePort = densePort.map fun e =>
      (reached (ofEvents defaultTolerance denseStarts) e.start - 1, e) :=
    landed_eq (ascending_ofTimes defaultTolerance _) densePort
  rw [ofEvents_denseStarts] at hlanded ⊢
  refine ⟨by decide +kernel, by decide +kernel, rfl, List.mem_cons_self, ?_, by decide +kernel⟩
  rw [hlanded]
  decide +kernel

theorem landings_displaced_dense : defaultTolerance.isFinite = true ∧
    Binary64.zero.le defaultTolerance = true ∧
    (∀ events ∈ denseStarts, ∀ e ∈ events, e.start.isFinite = true) ∧
    (∀ events ∈ denseStarts, ∀ p ∈ landed [.zero, .ofNat 4] events,
      ∃ c, [Binary64.zero, .ofNat 4][p.1]? = some c ∧
        LandsOn defaultTolerance (denseStarts.flatten.map Event.start) c p.2.start) := by
  have htol : defaultTolerance.isFinite = true := by decide +kernel
  have hzero : Binary64.zero.le defaultTolerance = true := by decide +kernel
  have hfin : ∀ events ∈ denseStarts, ∀ e ∈ events, e.start.isFinite = true := by decide +kernel
  have hlands := (landings_displaced htol hzero hfin).1
  rw [ofEvents_denseStarts] at hlands
  exact ⟨htol, hzero, hfin, fun events hevents => (hlands events hevents).2⟩

end Axis
end Bellows
