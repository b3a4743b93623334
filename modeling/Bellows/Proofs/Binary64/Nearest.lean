import Mathlib.Tactic.LinearCombination
import Bellows.Proofs.Binary64.Error

/-! Rounding is correct. No finite number is nearer to a value than the one that it is rounded to,
and where another one is just as near, the last kept bit of the one taken is zero
(`nearestTo_finite`); a multiple of a step is taken by the same rule (`nearestMultiple`). -/
namespace Bellows

variable {num den : Nat} {step : Rat}

/-- The multiple `k` of a step that is nearest to a value; of two that are equally near, the even
one. -/
structure NearestMultiple (step : Rat) (k : Int) (q : Rat) : Prop where
  nearest : ∀ j : Int, |k * step - q| ≤ |j * step - q|
  even : ∀ j : Int, j ≠ k → |j * step - q| = |k * step - q| → k % 2 = 0

/-- What lies halfway between two whole numbers is rounded to the even one. -/
theorem roundHalfEven_even (hden : 0 < den)
    (h : 2 * num + den = 2 * (roundHalfEven num den * den) ∨
      2 * num = 2 * (roundHalfEven num den * den) + den) : roundHalfEven num den % 2 = 0 := by
  have hpasses (k : Nat) : k < roundHalfEven num den ↔
      (2 * k + 1) * den < 2 * num ∨ ((2 * k + 1) * den = 2 * num ∧ k % 2 = 1) :=
    lt_roundHalfEven_iff hden
  generalize roundHalfEven num den = r at h hpasses
  rcases h with hup | hdown
  · have hr : r ≠ 0 := by
      rintro rfl
      omega
    obtain ⟨k, rfl⟩ := Nat.exists_eq_succ_of_ne_zero hr
    have htie : (2 * k + 1) * den = 2 * num := by
      rw [Nat.succ_mul k den] at hup
      rw [Nat.add_mul, Nat.one_mul, Nat.mul_assoc]
      omega
    rcases (hpasses k).mp (Nat.lt_succ_self k) with hlt | ⟨_, hodd⟩
    · omega
    · omega
  · have htie : (2 * r + 1) * den = 2 * num := by
      rw [Nat.add_mul, Nat.one_mul, Nat.mul_assoc]
      omega
    have hnot := mt (hpasses r).mpr (Nat.lt_irrefl r)
    have hodd : r % 2 ≠ 1 := fun hodd => hnot (Or.inr ⟨htie, hodd⟩)
    omega

/-- A quotient that is a half away from what it is rounded to is rounded to an even number. -/
theorem even_of_abs_eq (hden : 0 < den)
    (h : |(roundHalfEven num den : Rat) - num / den| = 1 / 2) : roundHalfEven num den % 2 = 0 := by
  have hpos : (0 : Rat) < den := by exact_mod_cast hden
  have hquot : (num : Rat) / den * den = num := div_mul_cancel₀ _ hpos.ne'
  apply roundHalfEven_even hden
  rcases (abs_eq (by norm_num)).mp h with hup | hdown
  · left
    have hcast : (2 * num + den : Rat) = 2 * (roundHalfEven num den * den) := by
      linear_combination (-2 * (den : Rat)) * hup - 2 * hquot
    exact_mod_cast hcast
  · right
    have hcast : (2 * num : Rat) = 2 * (roundHalfEven num den * den) + den := by
      linear_combination (-2 * (den : Rat)) * hdown - 2 * hquot
    exact_mod_cast hcast

/-- Different whole numbers are not both less than a half away from a value. -/
theorem one_le_abs_add_abs {i j : Int} (h : j ≠ i) (q : Rat) :
    1 ≤ |(j : Rat) - q| + |(i : Rat) - q| := by
  have hapart : (1 : Rat) ≤ |(j : Rat) - i| := by
    exact_mod_cast Int.one_le_abs (sub_ne_zero.mpr h)
  have htriangle := abs_sub_le (j : Rat) q i
  rw [abs_sub_comm q i] at htriangle
  linarith

/-- A rounded quotient is the nearest multiple, whatever the step. -/
theorem nearestMultiple (num : Nat) (hden : 0 < den) (hstep : 0 < step) :
    NearestMultiple step (roundHalfEven num den) (num / den * step) := by
  have hhalf := abs_roundHalfEven_sub_le num hden
  have hscale (i : Int) :
      |(i : Rat) * step - num / den * step| = |(i : Rat) - num / den| * step := by
    rw [← sub_mul, abs_mul, abs_of_pos hstep]
  constructor
  · intro j
    rw [hscale, hscale, Int.cast_natCast]
    refine mul_le_mul_of_nonneg_right ?_ hstep.le
    by_cases hj : j = roundHalfEven num den
    · rw [hj, Int.cast_natCast]
    · have hapart := one_le_abs_add_abs hj (num / den)
      rw [Int.cast_natCast] at hapart
      linarith
  · intro j hj heq
    rw [hscale, hscale, Int.cast_natCast] at heq
    have hsame := mul_right_cancel₀ hstep.ne' heq
    have hapart := one_le_abs_add_abs hj (num / den)
    rw [Int.cast_natCast] at hapart
    have htie : |(roundHalfEven num den : Rat) - num / den| = 1 / 2 := by linarith
    exact_mod_cast even_of_abs_eq hden htie

namespace Binary64

variable {m : Nat} {i : Int}

/-- The last kept bit of a rounded quotient is that of the multiple that it was rounded to. -/
theorem lastBit_nearest (h : roundHalfEven num (den * spacing (num / den)) % 2 = 0) :
    nearest num den / spacing (nearest num den) % 2 = 0 := by
  have hle : _ ≤ 2 ^ 53 := kept_le num den
  have hfill : spareBits (num / den) ≠ 0 → 2 ^ 52 ≤ _ := le_kept
  rw [nearest]
  generalize roundHalfEven num (den * spacing (num / den)) = r at *
  rw [spacing, Nat.pow_eq]
  generalize spareBits (num / den) = k at *
  have hpos := Nat.two_pow_pos k
  rcases Nat.lt_or_eq_of_le hle with hlt | rfl
  · have hspare : spareBits (r * 2 ^ k) = k := by
      refine Nat.le_antisymm (spareBits_le ?_) ?_
      · rw [Nat.pow_add]
        exact Nat.mul_lt_mul_of_pos_right hlt hpos
      · by_cases hk : k = 0
        · omega
        · refine le_spareBits ?_
          rw [Nat.pow_eq, Nat.pow_add]
          exact Nat.mul_le_mul_right _ (hfill hk)
    rw [spacing, hspare, Nat.pow_eq, Nat.mul_div_cancel _ hpos]
    exact h
  · -- the kept bits have run over into the next binade
    have hcarry : 2 ^ 53 * 2 ^ k = 2 ^ 52 * 2 ^ (k + 1) := by
      rw [← Nat.pow_add, ← Nat.pow_add]
      congr 1
      omega
    have hspare : spareBits (2 ^ 53 * 2 ^ k) = k + 1 := by
      refine Nat.le_antisymm (spareBits_le ?_) (le_spareBits ?_)
      · rw [← Nat.pow_add]
        exact Nat.pow_lt_pow_right (by decide) (by omega)
      · rw [hcarry, ← Nat.pow_add]
        exact Nat.le_refl _
    rw [spacing, hspare, hcarry, Nat.pow_eq, Nat.mul_div_cancel _ (Nat.two_pow_pos (k + 1))]
    decide

/-- The multiple of the spacing that a quotient is rounded to. -/
theorem nearestMultiple_spacing (num : Nat) (hden : 0 < den) :
    NearestMultiple (spacing (num / den)) (roundHalfEven num (den * spacing (num / den)))
      (num / den) := by
  have hspacing := spacing_pos (num / den)
  have hs : (0 : Rat) < spacing (num / den) := by exact_mod_cast hspacing
  have h := nearestMultiple num (Nat.mul_pos hden hspacing) hs
  rwa [Nat.cast_mul, ← div_div, div_mul_cancel₀ _ hs.ne'] at h

theorem cast_nearest (num den : Nat) : (nearest num den : Rat) =
    ((roundHalfEven num (den * spacing (num / den)) : Int) : Rat) * spacing (num / den) := by
  rw [nearest, Nat.cast_mul, Int.cast_natCast]

/-- A number below the binade of a value need not be a multiple of the spacing there, but then the
first number of the binade is nearer. -/
theorem multiple_or_lt (num : Nat) (hden : 0 < den) (hm : Representable m) :
    (∃ j, m = j * spacing (num / den)) ∨
      |(nearest num den : Rat) - num / den| < |(m : Rat) - num / den| := by
  by_cases hlow : Nat.pow 2 (52 + spareBits (num / den)) ≤ m
  · exact Or.inl (exists_eq_mul_left_of_dvd (two_pow_dvd hm hlow))
  by_cases hspare : spareBits (num / den) = 0
  · rw [spacing_of_spareBits hspare]
    exact Or.inl ⟨m, (Nat.mul_one m).symm⟩
  right
  have hbelow : m < 2 ^ 52 * spacing (num / den) := by
    rw [spacing, Nat.pow_eq, ← Nat.pow_add]
    exact Nat.lt_of_not_le hlow
  have hfirst := (Nat.le_div_iff_mul_le (spacing_pos _)).mp (le_quotient hspare)
  have hcast : ((num / den : Nat) : Rat) ≤ num / den := Nat.cast_div_le
  have hle : (2 ^ 52 * spacing (num / den) : Rat) ≤ num / den :=
    le_trans (by exact_mod_cast hfirst) hcast
  have hlt : (m : Rat) < 2 ^ 52 * spacing (num / den) := by exact_mod_cast hbelow
  have hnear := (nearestMultiple_spacing num hden).nearest (2 ^ 52)
  rw [← cast_nearest, Int.cast_pow, Int.cast_ofNat] at hnear
  calc |(nearest num den : Rat) - num / den|
      ≤ |2 ^ 52 * (spacing (num / den) : Rat) - num / den| := hnear
    _ = num / den - 2 ^ 52 * spacing (num / den) := by
      rw [abs_sub_comm, abs_of_nonneg (by linarith)]
    _ < num / den - m := by linarith
    _ = |(m : Rat) - num / den| := by rw [abs_sub_comm, abs_of_pos (by linarith)]

/-- No number is nearer to a quotient than the one that it is rounded to. -/
theorem abs_nearest_le (num : Nat) (hden : 0 < den) (hm : Representable m) :
    |(nearest num den : Rat) - num / den| ≤ |(m : Rat) - num / den| := by
  rcases multiple_or_lt num hden hm with ⟨j, rfl⟩ | hlt
  · have hnear := (nearestMultiple_spacing num hden).nearest j
    rw [← cast_nearest, Int.cast_natCast] at hnear
    rw [Nat.cast_mul]
    exact hnear
  · exact hlt.le

/-- Where another number is as near, the last kept bit of the one taken is zero. -/
theorem lastBit_of_tie (hden : 0 < den) (hm : Representable m) (hne : m ≠ nearest num den)
    (htie : |(m : Rat) - num / den| = |(nearest num den : Rat) - num / den|) :
    nearest num den / spacing (nearest num den) % 2 = 0 := by
  rcases multiple_or_lt num hden hm with ⟨j, rfl⟩ | hlt
  · apply lastBit_nearest
    have heven := (nearestMultiple_spacing num hden).even j
    rw [← cast_nearest, Int.cast_natCast] at heven
    rw [Nat.cast_mul] at htie
    have hj : (j : Int) ≠ roundHalfEven num (den * spacing (num / den)) := by
      intro hj
      apply hne
      rw [nearest, Int.ofNat_inj.mp hj]
    exact_mod_cast heven hj htie
  · exact (hlt.ne' htie).elim

/-- Without its sign a number is at least as near to a magnitude. -/
theorem abs_natAbs_sub_le {q : Rat} (hq : 0 ≤ q) (i : Int) :
    |(i.natAbs : Rat) - q| ≤ |(i : Rat) - q| := by
  have h := abs_abs_sub_abs_le_abs_sub (i : Rat) q
  rwa [abs_of_nonneg hq, ← Int.cast_abs, ← Nat.cast_natAbs] at h

/-- What is positive is not as near to a number as to the same number with the other sign. -/
theorem abs_neg_sub_ne {n : Nat} {q : Rat} (hn : 0 < n) (hq : 0 < q) :
    |-(n : Rat) - q| ≠ |(n : Rat) - q| := by
  have hpos : (0 : Rat) < n := by exact_mod_cast hn
  intro heq
  rw [← neg_add', abs_neg, abs_of_pos (by linarith)] at heq
  rcases abs_cases ((n : Rat) - q) with ⟨habs, _⟩ | ⟨habs, _⟩
  · linarith
  · linarith

section

variable (hden : 0 < den) (hi : Representable i.natAbs)
include hden hi

/-- Numbers with a sign are not nearer to a quotient either. -/
theorem abs_nearest_le_of_signed (num : Nat) :
    |(nearest num den : Rat) - num / den| ≤ |(i : Rat) - num / den| :=
  (abs_nearest_le num hden hi).trans (abs_natAbs_sub_le (by positivity) i)

theorem lastBit_of_signed_tie (hne : i ≠ nearest num den)
    (htie : |(i : Rat) - num / den| = |(nearest num den : Rat) - num / den|) :
    nearest num den / spacing (nearest num den) % 2 = 0 := by
  have hquot : (0 : Rat) ≤ num / den := by positivity
  have hother : i.natAbs ≠ nearest num den := by
    intro heq
    have hneg : i = -(nearest num den : Int) := by omega
    have hpos : 0 < nearest num den := by omega
    have hnum : num ≠ 0 := by
      rintro rfl
      rw [nearest_zero hden] at hpos
      exact Nat.lt_irrefl 0 hpos
    have hquot : (0 : Rat) < num / den := by positivity
    rw [hneg, Int.cast_neg, Int.cast_natCast] at htie
    exact abs_neg_sub_ne hpos hquot htie
  have hback := abs_natAbs_sub_le hquot i
  have hnear := abs_nearest_le num hden hi
  exact lastBit_of_tie hden hi hother (by linarith)

end

/-- A finite number that a value is rounded to: no finite number is nearer to the value, and if
another one is just as near, the last kept bit of this one is zero. -/
structure NearestTo (x : Binary64) (q : Rat) : Prop where
  isFinite : x.isFinite = true
  nearest : ∀ y : Binary64, y.isFinite = true → |x.value - q| ≤ |y.value - q|
  even : ∀ y : Binary64, y.isFinite = true → y.value ≠ x.value → |y.value - q| = |x.value - q| →
    x.rank.natAbs / spacing x.rank.natAbs % 2 = 0

theorem representable_rank {y : Binary64} (hy : y.isFinite = true) :
    Representable y.rank.natAbs := by
  obtain ⟨s, n, hn, rfl⟩ := exists_finite hy
  cases s with
  | false => exact hn
  | true => simpa [rank, signed] using hn

/-- Distances of values are distances in grains. -/
theorem abs_div_unit_sub (num den : Nat) (i : Int) :
    |(i : Rat) / unit - num / den| = |(i : Rat) - (num * unit : Nat) / den| / unit := by
  have hunit : (0 : Rat) < unit := by exact_mod_cast unit_pos
  rw [Nat.cast_mul]
  generalize (unit : Rat) = u at hunit
  rw [← abs_of_pos hunit, ← abs_div, abs_of_pos hunit, sub_div, mul_div_right_comm,
    mul_div_cancel_right₀ _ hunit.ne']

/-- The number that a quotient is rounded to is nearest to it. -/
theorem nearestTo_finite {n : Nat} (hden : 0 < den) (hn : Representable n)
    (h : nearest (num * unit) den = n) : (Binary64.finite false n hn).NearestTo (num / den) := by
  have hunit : (0 : Rat) < unit := by exact_mod_cast unit_pos
  have hvalue : (Binary64.finite false n hn).value = ((n : Int) : Rat) / unit := value_eq rfl
  refine ⟨rfl, ?_, ?_⟩
  · intro y hy
    rw [hvalue, value_eq hy, abs_div_unit_sub, abs_div_unit_sub, Int.cast_natCast, ← h]
    have hnearest := abs_nearest_le_of_signed hden (representable_rank hy) (num * unit)
    exact div_le_div_of_nonneg_right hnearest hunit.le
  · intro y hy hne htie
    change n / spacing n % 2 = 0
    rw [hvalue, value_eq hy] at hne
    rw [hvalue, value_eq hy, abs_div_unit_sub, abs_div_unit_sub, div_left_inj' hunit.ne',
      Int.cast_natCast] at htie
    have hrank : y.rank ≠ n := fun heq => hne (by rw [heq])
    subst h
    exact lastBit_of_signed_tie hden (representable_rank hy) hrank htie

end Binary64
end Bellows
