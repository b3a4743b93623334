import Bellows.Proofs.Binary64.Interval
import Bellows.Proofs.Binary64.Shortest

/-! Where the finite numbers end: a magnitude rounds past them exactly from half a step behind the
largest one on. -/
namespace Bellows.Binary64

variable {num den q k : Nat} {n : Int}

/-- What is less than a half above a whole number rounds to it at most. -/
theorem roundHalfEven_le (hden : 0 < den) (h : 2 * num < (2 * q + 1) * den) :
    roundHalfEven num den ≤ q := by
  refine Nat.le_of_not_lt fun hlt => ?_
  rcases (lt_roundHalfEven_iff hden).mp hlt with hpast | ⟨htie, _⟩
  · omega
  · omega

/-- Half a step in front of a power of two rounds up to it. -/
theorem nearest_half_step (k : Nat) :
    nearest ((2 ^ 54 - 1) * 2 ^ k) 1 = 2 ^ 54 * 2 ^ k := by
  have hpos := Nat.two_pow_pos k
  have hbits : spareBits ((2 ^ 54 - 1) * 2 ^ k) = k + 1 := by
    refine Nat.le_antisymm (spareBits_le ?_) (le_spareBits ?_)
    · rw [show 53 + (k + 1) = 54 + k by omega, Nat.pow_add]
      exact Nat.mul_lt_mul_of_pos_right (by decide) hpos
    · rw [Nat.pow_eq, show 52 + (k + 1) = 53 + k by omega, Nat.pow_add]
      exact Nat.mul_le_mul_right _ (by decide)
  have hspacing : spacing ((2 ^ 54 - 1) * 2 ^ k) = 2 ^ k * 2 := by
    rw [spacing, hbits, Nat.pow_eq, Nat.pow_succ 2 k]
  have hround : roundHalfEven ((2 ^ 54 - 1) * 2 ^ k) (2 ^ k * 2) = 2 ^ 53 := by
    generalize 2 ^ k = p at hpos
    refine roundHalfEven_eq (by omega) (Or.inr ⟨?_, by decide⟩) (Or.inl ?_)
    · norm_num
      omega
    · norm_num
      omega
  rw [nearest, Nat.div_one, Nat.one_mul, hspacing, hround, Nat.mul_comm (2 ^ k) 2,
    ← Nat.mul_assoc, ← Nat.pow_succ]

/-- Whatever is less than half a step away from a power of two, or further below, stays below it. -/
theorem nearest_lt_of_lt (hden : 0 < den) (h : num < (2 ^ 54 - 1) * 2 ^ k * den) :
    nearest num den < 2 ^ 54 * 2 ^ k := by
  have hpos := Nat.two_pow_pos k
  have hquot : num / den < 2 ^ (53 + (k + 1)) := by
    rw [Nat.div_lt_iff_lt_mul hden, show 53 + (k + 1) = 54 + k by omega, Nat.pow_add]
    exact Nat.lt_of_lt_of_le h (Nat.mul_le_mul_right _ (Nat.mul_le_mul_right _ (by decide)))
  unfold nearest
  rcases Nat.lt_or_eq_of_le (spareBits_le hquot) with hlt | heq
  · calc roundHalfEven num (den * spacing (num / den)) * spacing (num / den)
        ≤ 2 ^ 53 * 2 ^ k :=
      Nat.mul_le_mul (kept_le num den) (Nat.pow_le_pow_right (by decide) (Nat.le_of_lt_succ hlt))
      _ < 2 ^ 54 * 2 ^ k := Nat.mul_lt_mul_of_pos_right (by decide) hpos
  · have hspacing : spacing (num / den) = 2 * 2 ^ k := by
      rw [spacing, heq, Nat.pow_eq, Nat.pow_succ 2 k, Nat.mul_comm]
    rw [hspacing]
    generalize 2 ^ k = p at h hpos
    have hstep : 0 < 2 * p := by omega
    -- the kept bits cannot reach the fifty-fourth, not even by a tie
    have hkept : roundHalfEven num (den * (2 * p)) ≤ 2 ^ 53 - 1 := by
      have hodd : 2 * (2 ^ 53 - 1) + 1 = 2 ^ 54 - 1 := by decide
      refine roundHalfEven_le (Nat.mul_pos hden hstep) ?_
      rw [hodd]
      generalize 2 ^ 54 - 1 = m at h
      have hdouble : m * (den * (2 * p)) = 2 * (m * p * den) := by ring
      omega
    calc roundHalfEven num (den * (2 * p)) * (2 * p)
        ≤ (2 ^ 53 - 1) * (2 * p) := Nat.mul_le_mul_right _ hkept
      _ < 2 ^ 53 * (2 * p) := Nat.mul_lt_mul_of_pos_right (by decide) hstep
      _ = 2 ^ 54 * p := by rw [← Nat.mul_assoc, ← Nat.pow_succ]

/-- The least magnitude that has no finite number nearest to it. -/
def overflow : Nat := Nat.pow 2 1024 - Nat.pow 2 970

theorem overflow_mul_unit : overflow * unit = (2 ^ 54 - 1) * 2 ^ (970 + grainBits) := by
  unfold overflow unit
  rw [show 1024 = 54 + 970 from rfl]
  generalize 970 = narrow
  generalize grainBits = bits
  rw [Nat.pow_eq, Nat.pow_eq, Nat.pow_eq, Nat.pow_add 2 54, Nat.pow_add 2 narrow]
  generalize 2 ^ narrow = p
  generalize 2 ^ bits = u
  rw [Nat.sub_mul, Nat.sub_mul, Nat.one_mul, Nat.mul_assoc]

theorem ceiling_eq_mul : ceiling = 2 ^ 54 * 2 ^ (970 + grainBits) := by
  unfold ceiling totalBits
  generalize grainBits = bits
  rw [Nat.pow_eq, ← Nat.pow_add, show 1024 + bits = 54 + (970 + bits) by omega]

/-- A quotient rounds to a finite number exactly below the overflow. -/
theorem nearest_lt_ceiling_iff (hden : 0 < den) :
    nearest (num * unit) den < ceiling ↔ num < overflow * den := by
  have hunit := unit_pos
  have hscale : num * unit < overflow * unit * den ↔ num < overflow * den := by
    rw [Nat.mul_right_comm]
    exact Nat.mul_lt_mul_right hunit
  rw [← hscale, overflow_mul_unit, ceiling_eq_mul]
  generalize 970 + grainBits = bits
  refine ⟨fun hlt => Nat.lt_of_not_le fun hle => ?_, nearest_lt_of_lt hden⟩
  have hmono : nearest ((2 ^ 54 - 1) * 2 ^ bits) 1 ≤ nearest (num * unit) den :=
    nearest_mono Nat.one_pos hden (by rwa [Nat.mul_one])
  rw [nearest_half_step] at hmono
  omega

/-- A whole number has no nearest finite number exactly from the overflow on. -/
theorem ofInt?_eq_none_iff : ofInt? n = none ↔ overflow ≤ n.natAbs := by
  have hlt : nearest (n.natAbs * unit) 1 < ceiling ↔ n.natAbs < overflow * 1 :=
    nearest_lt_ceiling_iff Nat.one_pos
  rw [Nat.mul_one] at hlt
  rw [ofInt?, ofRatio, ofGrains, ← Nat.not_lt, ← hlt]
  split
  · next h => exact iff_of_false (Option.some_ne_none _) (not_not.mpr h)
  · next h => exact iff_of_true rfl h

end Bellows.Binary64
