import Bellows.Proofs.Axis.Runs
import Bellows.Proofs.Axis.SampleAndHold

/-! The axis of some times beside that of the same times and more. Further times add ticks and put
runs together, but what holds up to a tick of the larger axis is what holds up to one of the
smaller. -/
namespace Bellows.Axis

variable {tolerance c e : Binary64} {times more ticks : List Binary64} {events : List Event}
  {next : Option Binary64} {i : Nat}

/-- The last tick strictly before a moment; without a moment, the last one of all. -/
def tickBefore (ticks : List Binary64) : Option Binary64 → Nat
  | some t => ticks.countP (·.lt t) - 1
  | none => ticks.length - 1

theorem tickBefore_lt_length (h : ticks ≠ []) (next : Option Binary64) :
    tickBefore ticks next < ticks.length := by
  have hpos := List.length_pos_iff.mpr h
  cases next with
  | none =>
    rw [tickBefore]
    omega
  | some t =>
    have hcount : ticks.countP (·.lt t) ≤ ticks.length := List.countP_le_length
    rw [tickBefore]
    omega

theorem tickBefore_le_none (ticks : List Binary64) (next : Option Binary64) :
    tickBefore ticks next ≤ tickBefore ticks none := by
  cases next with
  | none => exact Nat.le_refl _
  | some t => exact Nat.sub_le_sub_right List.countP_le_length 1

theorem tickBefore_le_of_lt (h : c.lt e = true) :
    tickBefore ticks (some c) ≤ tickBefore ticks (some e) := by
  refine Nat.sub_le_sub_right (List.countP_mono_left fun t _ htc => ?_) 1
  exact Binary64.lt_trans htc h

/-- The ticks before a moment are those up to the last of them, if there is any. -/
theorem lt_iff_le_tickBefore (h : Increasing ticks)
    (hfirst : ∃ t, ticks.head? = some t ∧ t.lt c = true) (hi : i < ticks.length) :
    ticks[i].lt c = true ↔ i ≤ tickBefore ticks (some c) := by
  have hcount {k : Nat} (hk : k < ticks.length) :
      ticks[k].lt c = true ↔ k < ticks.countP (·.lt c) :=
    getElem_iff_lt_countP (p := (·.lt c)) (h.imp fun hab hbc => Binary64.lt_trans hab hbc) hk
  obtain ⟨t, ht, htc⟩ := hfirst
  have hzero : ticks[0].lt c = true := by
    rw [List.head?_eq_getElem?, List.getElem?_eq_getElem (by omega)] at ht
    cases ht
    exact htc
  have := (hcount (by omega)).mp hzero
  rw [hcount hi, tickBefore]
  omega

/-- Where two axes begin together, one begins before any later tick of the other one. -/
theorem exists_head_lt {own shared : List Binary64} {k : Nat} (hshared : Increasing shared)
    (hhead : own.head? = shared.head?) (hc : shared[k + 1]? = some c) :
    ∃ u, own.head? = some u ∧ u.lt c = true := by
  obtain ⟨hk, rfl⟩ := List.getElem?_eq_some_iff.mp hc
  have hpos : 0 < shared.length := Nat.lt_of_le_of_lt (Nat.zero_le _) hk
  refine ⟨shared[0], ?_, List.pairwise_iff_getElem.mp hshared 0 (k + 1) hpos hk (Nat.succ_pos k)⟩
  rw [hhead, List.head?_eq_getElem?, List.getElem?_eq_getElem hpos]

/-- The ticks before the second, the third and the later ticks of an axis come one after another. -/
theorem tickBefore_mono {shared : List Binary64} (h : Increasing shared) {j k : Nat} (hjk : j ≤ k)
    (hk : k < shared.length) :
    tickBefore ticks shared[j + 1]? ≤ tickBefore ticks shared[k + 1]? := by
  rcases Nat.lt_or_eq_of_le hjk with hlt | rfl
  · have hj : j + 1 < shared.length := by omega
    rw [List.getElem?_eq_getElem hj]
    by_cases hlast : k + 1 < shared.length
    · rw [List.getElem?_eq_getElem hlast]
      exact tickBefore_le_of_lt (List.pairwise_iff_getElem.mp h _ _ hj hlast (by omega))
    · rw [List.getElem?_eq_none (by omega)]
      exact tickBefore_le_none ticks _
  · exact Nat.le_refl _

theorem rank_le_of_not_lt (hc : c.isFinite = true) (he : e.isFinite = true)
    (h : ¬ e.lt c = true) : c.rank ≤ e.rank := by
  rw [Binary64.lt_iff_rank he hc] at h
  exact Int.not_lt.mp h

section

variable (hsub : ∀ t ∈ times, t ∈ more) (hfin : ∀ t ∈ more, t.isFinite = true)
  (htolerance : Binary64.zero.le tolerance = true)
include hsub hfin htolerance

/-- A tick of the larger axis divides the times of the smaller one as some tick of that does: it
lies behind a gap to all earlier times, so no run of the smaller axis reaches across it. -/
theorem lt_iff_lt_next (hc : c ∈ ofTimes tolerance more)
    (hfirst : ∃ t, (ofTimes tolerance times).head? = some t ∧ t.lt c = true) (he : e ∈ times) :
    e.lt c = true ↔
      ∀ d, (ofTimes tolerance times)[tickBefore (ofTimes tolerance times) (some c) + 1]? = some d →
        e.lt d = true := by
  have hfin' : ∀ t ∈ times, t.isFinite = true := fun t ht => hfin t (hsub t ht)
  have hinc := increasing_ofTimes htolerance hfin'
  have hcfin := hfin c (mem_of_mem_ofTimes hc)
  constructor
  · intro hec d hd
    obtain ⟨hlen, rfl⟩ := List.getElem?_eq_some_iff.mp hd
    have hbehind := mt (lt_iff_le_tickBefore hinc hfirst hlen).mp (by omega)
    have hdfin := hfin' _ (mem_of_mem_ofTimes (List.getElem_mem hlen))
    have hrank := rank_le_of_not_lt hcfin hdfin hbehind
    obtain ⟨hnan, _, hlt⟩ := Binary64.lt_iff.mp hec
    exact Binary64.lt_iff.mpr
      ⟨hnan, Binary64.isNan_of_isFinite hdfin, Int.lt_of_lt_of_le hlt hrank⟩
  · intro hnext
    by_contra hec
    obtain ⟨b, hb, hcb, hbe⟩ := exists_tick_between hfin' hcfin
      (fun t ht hlt => gap_of_mem_ofTimes hfin hc (hsub t ht) hlt) he
      (rank_le_of_not_lt hcfin (hfin' e he) hec)
    obtain ⟨i, hi, rfl⟩ := List.mem_iff_getElem.mp hb
    have hplace : tickBefore (ofTimes tolerance times) (some c) + 1 ≤ i := by
      have hlater : ¬ (ofTimes tolerance times)[i].lt c = true := by
        intro hlt
        obtain ⟨_, _, hrank⟩ := Binary64.lt_iff.mp hlt
        omega
      have := mt (lt_iff_le_tickBefore hinc hfirst hi).mpr hlater
      omega
    have hed := hnext _ (List.getElem?_eq_getElem (Nat.lt_of_le_of_lt hplace hi))
    obtain ⟨_, _, hrank⟩ := Binary64.lt_iff.mp hed
    have hle := hinc.rank_le hplace hi
    omega

/-- What was last before a tick of the larger axis was last before a tick of the smaller one. -/
theorem lastBefore_eq_lastBefore (hevents : ∀ e ∈ events, e.start ∈ times)
    (hnext : ∀ c, next = some c → c ∈ ofTimes tolerance more ∧
      ∃ t, (ofTimes tolerance times).head? = some t ∧ t.lt c = true) :
    lastBefore events next = lastBefore events
      (ofTimes tolerance times)[tickBefore (ofTimes tolerance times) next + 1]? := by
  cases next with
  | none =>
    have hend : (ofTimes tolerance times)[tickBefore (ofTimes tolerance times) none + 1]? =
        none := by
      rw [List.getElem?_eq_none_iff, tickBefore]
      omega
    rw [hend]
  | some c =>
    obtain ⟨hc, hfirst⟩ := hnext c rfl
    have hdivide := fun e he => lt_iff_lt_next hsub hfin htolerance hc hfirst (hevents e he)
    cases hd : (ofTimes tolerance times)[tickBefore (ofTimes tolerance times) (some c) + 1]? with
    | none =>
      refine congrArg List.getLast? (List.filter_eq_self.mpr fun e he =>
        (hdivide e he).mpr fun d hd' => ?_)
      rw [hd] at hd'
      cases hd'
    | some d =>
      refine congrArg List.getLast? (List.filter_congr fun e he => ?_)
      rw [Bool.eq_iff_iff, hdivide e he, hd]
      simp

end

end Bellows.Axis
