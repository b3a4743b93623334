import Mathlib.Algebra.Order.Field.Rat
import Mathlib.Data.Nat.Cast.Order.Field
import Mathlib.Tactic.Linarith
import Mathlib.Tactic.Positivity
import Bellows.Proofs.Binary64.HalfUp

/-! How much rounding loses, as an exact fraction: half a grain and a share of the value at most
(`abs_nearest_sub_le`), so that a time rounded to thousandths is off by little more than half a
thousandth (`abs_thousandthGrains_sub_le`). -/
namespace Bellows

variable {den : Nat}

/-- A rounded quotient is at most a half off. -/
theorem abs_roundHalfEven_sub_le (num : Nat) (hden : 0 < den) :
    |(roundHalfEven num den : Rat) - num / den| ≤ 1 / 2 := by
  have hup : (2 * (roundHalfEven num den * den) : Rat) ≤ 2 * num + den := by
    exact_mod_cast two_mul_roundHalfEven_le num den
  have hdown : (2 * num : Rat) ≤ 2 * (roundHalfEven num den * den) + den := by
    exact_mod_cast two_mul_le_roundHalfEven num hden
  have hpos : (0 : Rat) < den := by exact_mod_cast hden
  have hquot : (num : Rat) / den * den = num := div_mul_cancel₀ _ hpos.ne'
  rw [abs_le]
  constructor
  · apply le_of_mul_le_mul_right _ hpos
    linarith
  · apply le_of_mul_le_mul_right _ hpos
    linarith

namespace Binary64

variable {x y : Binary64}

/-- Numbers lie one grain apart, or a share of their own size. -/
theorem spacing_le_share (num den : Nat) :
    (spacing (num / den) : Rat) ≤ 1 + num / den / 2 ^ 52 := by
  by_cases hspare : spareBits (num / den) = 0
  · rw [spacing_of_spareBits hspare]
    have : (0 : Rat) ≤ num / den / 2 ^ 52 := by positivity
    push_cast
    linarith
  · have hquot := (Nat.le_div_iff_mul_le (spacing_pos _)).mp (le_quotient hspare)
    have hshare : (2 ^ 52 * spacing (num / den) : Rat) ≤ (num / den : Nat) := by
      exact_mod_cast hquot
    have hcast : ((num / den : Nat) : Rat) ≤ num / den := Nat.cast_div_le
    have := (le_div_iff₀' (by positivity : (0 : Rat) < 2 ^ 52)).mpr (hshare.trans hcast)
    linarith

/-- Rounding is off by half a grain and a share of the value at most. -/
theorem abs_nearest_sub_le (num : Nat) (hden : 0 < den) :
    |(nearest num den : Rat) - num / den| ≤ 1 / 2 + num / den / 2 ^ 53 := by
  have hspacing := spacing_pos (num / den)
  have hkept := abs_roundHalfEven_sub_le num (Nat.mul_pos hden hspacing)
  have hshare := spacing_le_share num den
  rw [nearest]
  generalize roundHalfEven num (den * spacing (num / den)) = r at *
  generalize spacing (num / den) = s at *
  have hs : (0 : Rat) < s := by exact_mod_cast hspacing
  have hscaled : (num : Rat) / den = num / (den * s : Nat) * s := by
    rw [Nat.cast_mul, ← div_div, div_mul_cancel₀ _ hs.ne']
  have hmul := mul_le_mul_of_nonneg_right hkept hs.le
  rw [← abs_of_pos hs, ← abs_mul, sub_mul, abs_of_pos hs, ← hscaled] at hmul
  push_cast
  linarith

/-- The exact value of a finite number. -/
def value (x : Binary64) : Rat := x.toRat?.getD 0

theorem value_eq (hx : x.isFinite = true) : x.value = x.rank / unit := by
  obtain ⟨sign, n, hn, rfl⟩ := exists_finite hx
  simp only [value, toRat?, Option.getD_some, Rat.mkRat_eq_div, rank]

theorem lt_iff_value (hx : x.isFinite = true) (hy : y.isFinite = true) :
    x.lt y = true ↔ x.value < y.value := by
  have hunit : (0 : Rat) < unit := by exact_mod_cast unit_pos
  rw [lt_iff_rank hx hy, value_eq hx, value_eq hy, div_lt_div_iff_of_pos_right hunit, Int.cast_lt]

/-- There are more grains in one than numbers can tell apart. -/
theorem two_pow_le_unit : 2 ^ 53 ≤ unit := by
  have hbits : 53 ≤ grainBits := by decide
  unfold unit
  generalize grainBits = bits at hbits
  exact Nat.pow_le_pow_right (by decide) hbits

/-- The number nearest to a quotient is off by a share of it at most, or of one. -/
theorem abs_nearest_unit_sub_le (num : Nat) (hden : 0 < den) :
    |(nearest (num * unit) den : Rat) / unit - num / den| ≤ (num / den + 1) / 2 ^ 53 := by
  have hround := abs_nearest_sub_le (num * unit) hden
  have hgrains : (2 ^ 53 : Rat) ≤ unit := by exact_mod_cast two_pow_le_unit
  rw [Nat.cast_mul, mul_div_right_comm] at hround
  generalize (unit : Rat) = u at *
  generalize (num : Rat) / den = q at *
  generalize (nearest (num * unit) den : Rat) = r at *
  have hu : 0 < u := by linarith
  have hr : r / u * u = r := div_mul_cancel₀ _ hu.ne'
  rw [abs_le] at hround ⊢
  constructor
  · apply le_of_mul_le_mul_right _ hu
    linarith
  · apply le_of_mul_le_mul_right _ hu
    linarith

/-- Rounding to thousandths is off by half a thousandth, and by a share of the outcome at most. -/
theorem abs_thousandthGrains_sub_le (n : Nat) : ∃ k : Nat,
    |(k : Rat) / 1000 - n / unit| ≤ 1 / 2000 ∧
      |(thousandthGrains n : Rat) / unit - k / 1000| ≤ (k / 1000 + 1) / 2 ^ 53 := by
  refine ⟨roundHalfEven (n * 1000) unit, ?_, abs_nearest_unit_sub_le _ (by decide)⟩
  have hround := abs_roundHalfEven_sub_le (n * 1000) unit_pos
  rw [Nat.cast_mul, mul_div_right_comm] at hround
  rw [abs_le] at hround ⊢
  constructor <;> linarith

end Binary64
end Bellows
