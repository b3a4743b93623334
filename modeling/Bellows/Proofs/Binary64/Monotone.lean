import Bellows.Binary64.Basic

/-! Rounding keeps order: of two quotients, the smaller one never rounds to the larger number. -/
namespace Bellows

variable {a b c d k num den : Nat}

/-- The halfway point above a whole number decides whether rounding passes it; a tie passes an odd
number only. -/
theorem lt_roundHalfEven_iff (hden : 0 < den) :
    k < roundHalfEven num den ↔
      (2 * k + 1) * den < 2 * num ∨ ((2 * k + 1) * den = 2 * num ∧ k % 2 = 1) := by
  have hnum := Nat.div_add_mod num den
  have hrem := Nat.mod_lt num hden
  have hlow := div_le_roundHalfEven num den
  have hhigh := roundHalfEven_le_succ num den
  have hexp : (2 * k + 1) * den = 2 * (den * k) + den := by
    rw [Nat.add_mul, Nat.one_mul, Nat.mul_assoc, Nat.mul_comm k den]
  rcases Nat.lt_trichotomy k (num / den) with hk | rfl | hk
  · have := Nat.mul_le_mul_left den (Nat.succ_le_of_lt hk)
    rw [Nat.mul_succ] at this
    exact ⟨fun _ => Or.inl (by omega), fun _ => by omega⟩
  · rw [hexp]
    unfold roundHalfEven
    split
    · omega
    · split <;> omega
  · have := Nat.mul_le_mul_left den (Nat.succ_le_of_lt hk)
    rw [Nat.mul_succ] at this
    exact ⟨fun _ => by omega, fun _ => by omega⟩

theorem roundHalfEven_mono (hb : 0 < b) (hd : 0 < d) (h : a * d ≤ c * b) :
    roundHalfEven a b ≤ roundHalfEven c d := by
  refine Nat.le_of_not_lt fun hlt => Nat.lt_irrefl (roundHalfEven c d) ?_
  have hcross : 2 * a * d ≤ 2 * c * b := by
    rw [Nat.mul_assoc, Nat.mul_assoc]
    exact Nat.mul_le_mul_left 2 h
  rw [lt_roundHalfEven_iff hd]
  obtain hpast | ⟨htie, hodd⟩ := (lt_roundHalfEven_iff hb).mp hlt
  · have hd' := Nat.mul_lt_mul_of_pos_right hpast hd
    rw [Nat.mul_right_comm] at hd'
    exact Or.inl (Nat.lt_of_mul_lt_mul_right (Nat.lt_of_lt_of_le hd' hcross))
  · have hle : (2 * roundHalfEven c d + 1) * d * b ≤ 2 * c * b := by
      rw [Nat.mul_right_comm, htie]
      exact hcross
    have := Nat.le_of_mul_le_mul_right hle hb
    rcases Nat.lt_or_eq_of_le this with hlt | heq
    · exact Or.inl hlt
    · exact Or.inr ⟨heq, hodd⟩

/-- A quotient that is a whole number is not changed. -/
theorem roundHalfEven_mul (k : Nat) (hden : 0 < den) : roundHalfEven (k * den) den = k := by
  unfold roundHalfEven
  rw [Nat.mul_mod_left, Nat.mul_div_cancel _ hden, if_pos (by omega)]

namespace Binary64

theorem spareBits_mono {m n : Nat} (h : m ≤ n) : spareBits m ≤ spareBits n := by
  have hlog : m.log2 ≤ n.log2 := by
    rcases Nat.eq_zero_or_pos m with rfl | hm
    · simp
    · exact (Nat.le_log2 (by omega)).mpr (Nat.le_trans (Nat.log2_self_le (by omega)) h)
  unfold spareBits
  omega

/-- Across binades the power of two between them keeps the rounded numbers apart. -/
theorem nearest_mono (hb : 0 < b) (hd : 0 < d) (h : a * d ≤ c * b) : nearest a b ≤ nearest c d := by
  have hquot : a / b ≤ c / d := by
    rw [Nat.le_div_iff_mul_le hd]
    refine Nat.le_of_mul_le_mul_right (Nat.le_trans ?_ h) hb
    calc a / b * d * b = a / b * b * d := Nat.mul_right_comm _ _ _
      _ ≤ a * d := Nat.mul_le_mul_right d (Nat.div_mul_le_self a b)
  have hspare := spareBits_mono hquot
  unfold nearest
  rcases Nat.lt_or_eq_of_le hspare with hlt | heq
  · have hkept := kept_le a b
    have hfill : Nat.pow 2 52 ≤ roundHalfEven c (d * spacing (c / d)) := le_kept (by omega)
    have hbinade : Nat.pow 2 53 * spacing (a / b) ≤ Nat.pow 2 52 * spacing (c / d) := by
      simp only [spacing, Nat.pow_eq, ← Nat.pow_add]
      exact Nat.pow_le_pow_right (by decide) (by omega)
    calc roundHalfEven a (b * spacing (a / b)) * spacing (a / b)
        ≤ Nat.pow 2 53 * spacing (a / b) := Nat.mul_le_mul_right _ hkept
      _ ≤ Nat.pow 2 52 * spacing (c / d) := hbinade
      _ ≤ roundHalfEven c (d * spacing (c / d)) * spacing (c / d) := Nat.mul_le_mul_right _ hfill
  · have hspacing : spacing (a / b) = spacing (c / d) := congrArg (Nat.pow 2) heq
    rw [hspacing]
    refine Nat.mul_le_mul_right _ (roundHalfEven_mono ?_ ?_ ?_)
    · exact Nat.mul_pos hb (spacing_pos _)
    · exact Nat.mul_pos hd (spacing_pos _)
    · rw [← Nat.mul_assoc, ← Nat.mul_assoc]
      exact Nat.mul_le_mul_right _ h

/-- Only the value of a quotient matters, not how it is written. -/
theorem nearest_congr (hb : 0 < b) (hd : 0 < d) (h : a * d = c * b) : nearest a b = nearest c d :=
  Nat.le_antisymm (nearest_mono hb hd (Nat.le_of_eq h)) (nearest_mono hd hb (Nat.le_of_eq h.symm))

theorem nearest_mul_mul (hk : 0 < k) (hden : 0 < den) :
    nearest (num * k) (den * k) = nearest num den :=
  nearest_congr (Nat.mul_pos hden hk) hden (by rw [Nat.mul_assoc, Nat.mul_comm k den])

theorem nearest_of_representable {n : Nat} (h : Representable n) : nearest n 1 = n := by
  have hdvd := Nat.dvd_of_mod_eq_zero h.2
  unfold nearest
  rw [Nat.div_one, Nat.one_mul]
  generalize spacing n = p at hdvd
  obtain ⟨q, rfl⟩ := hdvd
  rcases Nat.eq_zero_or_pos p with rfl | hp
  · simp
  · rw [Nat.mul_comm p q, roundHalfEven_mul q hp]

theorem nearest_zero (hden : 0 < den) : nearest 0 den = 0 := by
  have h : nearest (0 * den) (1 * den) = nearest 0 1 := nearest_mul_mul hden Nat.one_pos
  rw [Nat.zero_mul, Nat.one_mul, nearest_of_representable representable_zero] at h
  exact h

theorem unit_pos : 0 < unit := by
  unfold unit
  generalize grainBits = bits
  exact Nat.two_pow_pos bits

theorem le_spareBits {n : Nat} (h : Nat.pow 2 (52 + k) ≤ n) : k ≤ spareBits n := by
  have hn : n ≠ 0 := Nat.ne_of_gt (Nat.lt_of_lt_of_le (Nat.two_pow_pos _) h)
  have hlog := (Nat.le_log2 hn).mpr h
  unfold spareBits
  omega

/-- A large number is a multiple of a power of two. -/
theorem two_pow_dvd {n : Nat} (h : Representable n) (hn : Nat.pow 2 (52 + k) ≤ n) :
    Nat.pow 2 k ∣ n :=
  Nat.dvd_trans (Nat.pow_dvd_pow 2 (le_spareBits hn)) (Nat.dvd_of_mod_eq_zero h.2)

/-- From `2 ^ 52` on a number has no bits below the point. -/
theorem unit_dvd {n : Nat} (h : Representable n) (hn : Nat.pow 2 (52 + grainBits) ≤ n) :
    unit ∣ n := by
  unfold unit
  exact two_pow_dvd h hn

theorem representable_two_pow (h : k < totalBits) : Representable (Nat.pow 2 k) :=
  ⟨two_pow_lt_ceiling h, by
    rw [spacing, spareBits, Nat.pow_eq, Nat.pow_eq, Nat.log2_two_pow]
    exact Nat.mod_eq_zero_of_dvd (Nat.pow_dvd_pow 2 (Nat.sub_le k 52))⟩

/-- The grains of a number rounded to thousandths. -/
def thousandthGrains (n : Nat) : Nat := nearest (roundHalfEven (n * 1000) unit * unit) 1000

theorem thousandthGrains_mono {m n : Nat} (h : m ≤ n) :
    thousandthGrains m ≤ thousandthGrains n := by
  refine nearest_mono (by decide) (by decide) (Nat.mul_le_mul_right _ (Nat.mul_le_mul_right _ ?_))
  exact roundHalfEven_mono unit_pos unit_pos (Nat.mul_le_mul_right _ (Nat.mul_le_mul_right _ h))

/-- A number without bits below the point is its own thousandth. -/
theorem thousandthGrains_of_dvd {n : Nat} (h : Representable n) (hn : unit ∣ n) :
    thousandthGrains n = n := by
  have hunit := unit_pos
  unfold thousandthGrains
  generalize unit = u at hn hunit
  obtain ⟨m, rfl⟩ := hn
  have hwhole : u * m * 1000 = m * 1000 * u := by
    rw [Nat.mul_assoc, Nat.mul_comm]
  rw [hwhole, roundHalfEven_mul _ hunit, ← hwhole]
  have hscale : nearest (u * m * 1000) (1 * 1000) = nearest (u * m) 1 :=
    nearest_mul_mul (by decide) Nat.one_pos
  rw [Nat.one_mul] at hscale
  rw [hscale, nearest_of_representable h]

theorem thousandthGrains_zero : thousandthGrains 0 = 0 :=
  thousandthGrains_of_dvd representable_zero (Nat.dvd_zero _)

/-- Rounding to thousandths never leaves the finite numbers: it changes only numbers that are far
from the ceiling. -/
theorem thousandthGrains_lt_ceiling {n : Nat} (h : Representable n) :
    thousandthGrains n < ceiling := by
  by_cases hn : Nat.pow 2 (52 + grainBits) ≤ n
  · rw [thousandthGrains_of_dvd h (unit_dvd h hn)]
    exact h.1
  · have hbound : Representable (Nat.pow 2 (52 + grainBits)) := representable_two_pow (by decide)
    have hwhole := thousandthGrains_of_dvd hbound (unit_dvd hbound (Nat.le_refl _))
    calc thousandthGrains n
        ≤ thousandthGrains (Nat.pow 2 (52 + grainBits)) :=
          thousandthGrains_mono (Nat.le_of_not_le hn)
      _ = Nat.pow 2 (52 + grainBits) := hwhole
      _ < ceiling := hbound.1

end Binary64
end Bellows
