import Bellows.Proofs.Binary64.Difference
import Bellows.Proofs.Binary64.Interval

/-! Whole milliseconds. A half is added in floating point before the fraction is cut off; times that
lie more than one apart are never rounded to the same whole number, whatever the addition loses. -/
namespace Bellows

variable {num den : Nat}

/-- A rounded quotient is at most half too large. -/
theorem two_mul_roundHalfEven_le (num den : Nat) :
    2 * (roundHalfEven num den * den) ≤ 2 * num + den := by
  have hnum := Nat.div_add_mod num den
  have hup : (num / den + 1) * den = den * (num / den) + den := by
    rw [Nat.succ_mul, Nat.mul_comm]
  have hdown : num / den * den = den * (num / den) := Nat.mul_comm _ _
  have hhigh := roundHalfEven_le_succ num den
  by_cases hlt : 2 * (num % den) < den
  · rw [roundHalfEven, if_pos hlt, hdown]
    omega
  · have hmul := Nat.mul_le_mul_right den hhigh
    rw [hup] at hmul
    omega

/-- A rounded quotient is at most half too small. -/
theorem two_mul_le_roundHalfEven (num : Nat) (hden : 0 < den) :
    2 * num ≤ 2 * (roundHalfEven num den * den) + den := by
  have hnum := Nat.div_add_mod num den
  have hrem := Nat.mod_lt num hden
  have hdown : num / den * den = den * (num / den) := Nat.mul_comm _ _
  have hup : (num / den + 1) * den = den * (num / den) + den := by
    rw [Nat.succ_mul, Nat.mul_comm]
  by_cases hgt : den < 2 * (num % den)
  · rw [roundHalfEven, if_neg (by omega), if_pos hgt, hup]
    omega
  · have hmul := Nat.mul_le_mul_right den (div_le_roundHalfEven num den)
    omega

namespace Binary64

variable {m n k r : Nat}

/-- Different multiples are at least one step apart. -/
theorem add_le_of_dvd {s : Nat} (hm : s ∣ m) (hn : s ∣ n) (h : m < n) : m + s ≤ n := by
  have hstep := Nat.le_of_dvd (Nat.sub_pos_of_lt h) (Nat.dvd_sub hn hm)
  omega

theorem spacing_dvd_nearest (n : Nat) : spacing n ∣ nearest n 1 := by
  rw [nearest, Nat.div_one]
  exact Nat.dvd_mul_left _ _

/-- Rounding goes up by at most half of the spacing. -/
theorem two_mul_nearest_le (n : Nat) : 2 * nearest n 1 ≤ 2 * n + spacing n := by
  rw [nearest, Nat.div_one, Nat.one_mul]
  exact two_mul_roundHalfEven_le n (spacing n)

/-- Rounding goes down by at most half of the spacing. -/
theorem two_mul_le_nearest (n : Nat) : 2 * n ≤ 2 * nearest n 1 + spacing n := by
  rw [nearest, Nat.div_one, Nat.one_mul]
  exact two_mul_le_roundHalfEven n (spacing_pos n)

theorem spacing_dvd_spacing (h : m ≤ n) : spacing m ∣ spacing n :=
  Nat.pow_dvd_pow 2 (spareBits_mono h)

theorem spacing_mono (h : m ≤ n) : spacing m ≤ spacing n :=
  Nat.le_of_dvd (spacing_pos n) (spacing_dvd_spacing h)

theorem nearest_le_of_le (hr : Representable r) (h : n ≤ r) : nearest n 1 ≤ r := by
  have hmono : nearest n 1 ≤ nearest r 1 := nearest_mono Nat.one_pos Nat.one_pos (by omega)
  rwa [nearest_of_representable hr] at hmono

theorem le_nearest_of_le (hr : Representable r) (h : r ≤ n) : r ≤ nearest n 1 := by
  have hmono : nearest r 1 ≤ nearest n 1 := nearest_mono Nat.one_pos Nat.one_pos (by omega)
  rwa [nearest_of_representable hr] at hmono

/-- A number that is missed by less than half of the spacing is reached. -/
theorem le_nearest_of_near (hr : Representable r) (h : n < r) (hnear : 2 * r < 2 * n + spacing n) :
    r ≤ nearest n 1 := by
  have hdvd := Nat.dvd_trans (spacing_dvd_spacing (Nat.le_of_lt h)) (Nat.dvd_of_mod_eq_zero hr.2)
  have hlow := two_mul_le_nearest n
  refine Nat.le_of_not_lt fun hlt => ?_
  have hstep := add_le_of_dvd (spacing_dvd_nearest n) hdvd hlt
  omega

theorem two_pow_le_spacing (h : Nat.pow 2 (52 + k) ≤ n) : Nat.pow 2 k ≤ spacing n :=
  Nat.pow_le_pow_right (by decide) (le_spareBits h)

/-- Multiples of a power of two with a factor of at most 53 bits. -/
theorem representable_mul_two_pow (hk : k ≤ Nat.pow 2 53) {s : Nat}
    (h : k * Nat.pow 2 s < ceiling) : Representable (k * Nat.pow 2 s) := by
  rcases Nat.lt_or_eq_of_le hk with hlt | rfl
  · have hbits : k * Nat.pow 2 s < 2 ^ (53 + s) := by
      rw [Nat.pow_add]
      exact Nat.mul_lt_mul_of_pos_right hlt (Nat.two_pow_pos s)
    refine ⟨h, Nat.mod_eq_zero_of_dvd ?_⟩
    exact Nat.dvd_trans (Nat.pow_dvd_pow 2 (spareBits_le hbits)) (Nat.dvd_mul_left _ _)
  · exact representable_shift (Nat.pow_le_pow_right (by decide) (by decide)) (Nat.le_refl _) h

/-- Within one step behind a number nothing changes about the spacing. -/
theorem spacing_add (hm : Representable m) (h : k < spacing m) : spacing (m + k) = spacing m := by
  obtain ⟨q, hmq, hq, _⟩ := exists_mul_spacing hm
  refine Nat.le_antisymm ?_ (spacing_mono (Nat.le_add_right m k))
  refine Nat.pow_le_pow_right (by decide) (spareBits_le ?_)
  calc m + k < m + spacing m := Nat.add_lt_add_left h m
    _ = (q + 1) * spacing m := by rw [Nat.succ_mul, ← hmq]
    _ ≤ 2 ^ 53 * spacing m := Nat.mul_le_mul_right _ (Nat.succ_le_of_lt hq)
    _ = 2 ^ (53 + spareBits m) := by rw [spacing, Nat.pow_eq, Nat.pow_add]

/-- The grains in a half. -/
def halfUnit : Nat := Nat.pow 2 (grainBits - 1)

theorem two_mul_halfUnit : 2 * halfUnit = unit := by
  have hbits : grainBits = grainBits - 1 + 1 := by decide
  unfold halfUnit unit
  rw [hbits]
  generalize grainBits - 1 = bits
  exact (Nat.pow_succ' ..).symm

/-- The whole number that is nearest to a number of grains, a half upwards; the half is added in
floating point. -/
def halfUp (n : Nat) : Nat := nearest (n + halfUnit) 1 / unit

theorem two_pow_add_grainBits (j : Nat) : Nat.pow 2 (j + grainBits) = Nat.pow 2 j * unit := by
  unfold unit
  generalize grainBits = bits
  exact Nat.pow_add 2 j bits

/-- Whole numbers up to `2 ^ 53`. -/
theorem representable_whole (hk : k ≤ Nat.pow 2 53) : Representable (k * unit) := by
  have hbound : Nat.pow 2 (53 + grainBits) < ceiling := two_pow_lt_ceiling (by decide)
  unfold unit
  generalize grainBits = bits at hbound ⊢
  refine representable_mul_two_pow hk (Nat.lt_of_le_of_lt ?_ hbound)
  calc k * Nat.pow 2 bits ≤ Nat.pow 2 53 * Nat.pow 2 bits := Nat.mul_le_mul_right _ hk
    _ = Nat.pow 2 (53 + bits) := (Nat.pow_add 2 53 bits).symm

section

variable (hm : Representable m)
include hm

/-- Behind the last numbers with halves, adding one half changes nothing. -/
theorem nearest_add_half (h : Nat.pow 2 (53 + grainBits) ≤ m) :
    nearest (m + halfUnit) 1 = m := by
  have hexp : 53 + grainBits = 52 + (1 + grainBits) := by omega
  have htwo : Nat.pow 2 (1 + grainBits) = 2 * unit := by
    unfold unit
    generalize grainBits = bits
    exact Nat.pow_add 2 1 bits
  have hwide : 2 * unit ≤ spacing m := by
    rw [← htwo]
    exact two_pow_le_spacing (hexp ▸ h)
  have hhalf := two_mul_halfUnit
  have hpos := unit_pos
  have hspacing : spacing (m + halfUnit) = spacing m := spacing_add hm (by omega)
  have hlow := le_nearest_of_le hm (Nat.le_add_right m halfUnit)
  have hhigh := two_mul_nearest_le (m + halfUnit)
  have hdvd := spacing_dvd_nearest (m + halfUnit)
  rw [hspacing] at hdvd hhigh
  refine Nat.le_antisymm (Nat.le_of_not_lt fun hlt => ?_) hlow
  have hstep := add_le_of_dvd (Nat.dvd_of_mod_eq_zero hm.2) hdvd hlt
  omega

/-- Adding a half never leaves the finite numbers. -/
theorem nearest_add_half_lt_ceiling : nearest (m + halfUnit) 1 < ceiling := by
  by_cases h : Nat.pow 2 (53 + grainBits) ≤ m
  · rw [nearest_add_half hm h]
    exact hm.1
  · have hbound : Representable (Nat.pow 2 (54 + grainBits)) := representable_two_pow (by decide)
    refine Nat.lt_of_le_of_lt (nearest_le_of_le hbound ?_) hbound.1
    have hhalf := two_mul_halfUnit
    have hpos := unit_pos
    rw [two_pow_add_grainBits] at h ⊢
    generalize unit = u at *
    norm_num at h ⊢
    omega

end

/-- In front of the last numbers with halves, a half less than one apart is still rounded to
different whole numbers: what the first sum gains, at most half of its spacing, the second one gains
too. -/
theorem halfUp_lt_of_lt (h : m + unit < n) (hsmall : m < Nat.pow 2 (52 + grainBits)) :
    halfUp m < halfUp n := by
  have hpos := unit_pos
  have hhalf := two_mul_halfUnit
  have hfloor : halfUp m * unit ≤ nearest (m + halfUnit) 1 := Nat.div_mul_le_self _ _
  have hbits : halfUp m + 1 < Nat.pow 2 53 := by
    have hbound : Representable ((Nat.pow 2 52 + 1) * unit) := representable_whole (by decide)
    have hle : nearest (m + halfUnit) 1 ≤ (Nat.pow 2 52 + 1) * unit := by
      refine nearest_le_of_le hbound ?_
      rw [two_pow_add_grainBits] at hsmall
      rw [Nat.succ_mul]
      omega
    have hquot : halfUp m ≤ Nat.pow 2 52 + 1 := Nat.div_le_of_le_mul (by rwa [Nat.mul_comm])
    norm_num at hquot ⊢
    omega
  have hnext := representable_whole (Nat.le_of_lt hbits)
  refine Nat.lt_of_succ_le ((Nat.le_div_iff_mul_le hpos).mpr ?_)
  change (halfUp m + 1) * unit ≤ nearest (n + halfUnit) 1
  rcases Nat.lt_or_ge (n + halfUnit) ((halfUp m + 1) * unit) with hlt | hge
  · refine le_nearest_of_near hnext hlt ?_
    have herror := two_mul_nearest_le (m + halfUnit)
    have hspacing : spacing (m + halfUnit) ≤ spacing (n + halfUnit) := spacing_mono (by omega)
    rw [Nat.add_mul, Nat.one_mul] at hlt ⊢
    omega
  · exact le_nearest_of_le hnext hge

/-- Numbers more than one apart are rounded to different whole numbers. -/
theorem halfUp_lt (hm : Representable m) (hn : Representable n) (h : m + unit < n) :
    halfUp m < halfUp n := by
  by_cases hsmall : m < Nat.pow 2 (52 + grainBits)
  · exact halfUp_lt_of_lt h hsmall
  have hlarge := Nat.le_of_not_lt hsmall
  have hpos := unit_pos
  have hdm := unit_dvd hm hlarge
  have hdn := unit_dvd hn (by omega)
  have hbelow : nearest (m + halfUnit) 1 < n := by
    by_cases hfine : Nat.pow 2 (53 + grainBits) ≤ m
    · rw [nearest_add_half hm hfine]
      omega
    · have hbound : Representable (m + unit) := by
        obtain ⟨k, hk⟩ := hdm
        have hnext : m + unit = (k + 1) * unit := by
          rw [hk]
          ring
        rw [two_pow_add_grainBits, hk, Nat.mul_comm unit] at hfine
        rw [hnext]
        refine representable_whole ?_
        generalize unit = u at hfine
        exact Nat.lt_of_mul_lt_mul_right (Nat.lt_of_not_le hfine)
      have hle : nearest (m + halfUnit) 1 ≤ m + unit := by
        refine nearest_le_of_le hbound ?_
        have hhalf := two_mul_halfUnit
        omega
      omega
  have habove : n ≤ nearest (n + halfUnit) 1 := le_nearest_of_le hn (Nat.le_add_right n halfUnit)
  calc halfUp m < n / unit := Nat.div_lt_div_of_lt_of_dvd hdn hbelow
    _ ≤ halfUp n := Nat.div_le_div_right habove

variable {x y tolerance : Binary64}

/-- A gap of more than one is wider than one before it is rounded, too. -/
theorem unit_lt_of_gap (htolerance : (ofNat 1).le tolerance = true) (hx : x.isFinite = true)
    (hy : y.isFinite = true) (h : tolerance.lt (y.sub x) = true) : x.rank + unit < y.rank := by
  obtain ⟨_, _, hgap⟩ := lt_iff.mp h
  obtain ⟨_, _, hone⟩ := le_iff.mp htolerance
  have hunit : (ofNat 1).rank = roundGrains unit := by
    rw [ofNat, ofRatio, rank_ofGrains, Nat.one_mul, roundGrains, Int.natAbs_natCast,
      decide_eq_false (Int.not_lt.mpr (Int.natCast_nonneg unit))]
  refine Int.lt_of_not_ge fun hle => ?_
  have hnear : roundGrains (y.rank - x.rank) ≤ roundGrains unit := roundGrains_mono (by omega)
  rw [← rank_sub hy hx] at hnear
  omega

theorem representable_halfUnit : Representable halfUnit := by
  unfold halfUnit
  exact representable_two_pow (by decide)

end Binary64
end Bellows
