/-!
Rounding of quotients to whole numbers of at most 53 significant bits. Main statement: a rounded
quotient is always such a number (`representable_nearest`), so rounding twice changes nothing.
-/
namespace Bellows

/-- The whole number nearest to `num / den`; a half goes to the even neighbour. -/
def roundHalfEven (num den : Nat) : Nat :=
  if 2 * (num % den) < den then num / den
  else if den < 2 * (num % den) then num / den + 1
  else num / den + num / den % 2

theorem div_le_roundHalfEven (num den : Nat) : num / den ≤ roundHalfEven num den := by
  unfold roundHalfEven
  split
  · exact Nat.le_refl _
  · split <;> omega

theorem roundHalfEven_le_succ (num den : Nat) : roundHalfEven num den ≤ num / den + 1 := by
  unfold roundHalfEven
  split
  · omega
  · split <;> omega

namespace Binary64

/-- How many low bits a whole number of the size of `n` has beyond the 53 that are kept. -/
def spareBits (n : Nat) : Nat := n.log2 - 52

/-- A finite number is counted in grains of `2 ^ -1074`, the finest step there is. -/
def grainBits : Nat := 1074

/-- How many bits a finite number of grains has at most: 1024 above the point, the rest below. -/
def totalBits : Nat := 1024 + grainBits

/-- The bound that finite numbers of grains stay below. -/
def ceiling : Nat := Nat.pow 2 totalBits

/-- How far apart numbers of the size of `n` are: the spare bits of each are zero. -/
def spacing (n : Nat) : Nat := Nat.pow 2 (spareBits n)

/-- A count of grains that has at most 53 significant bits and is below the ceiling. -/
def Representable (n : Nat) : Prop := n < ceiling ∧ n % spacing n = 0

instance (n : Nat) : Decidable (Representable n) := by unfold Representable; infer_instance

/-- The whole number of at most 53 significant bits nearest to `num / den`, ties to even. -/
def nearest (num den : Nat) : Nat :=
  roundHalfEven num (den * spacing (num / den)) * spacing (num / den)

variable {n num den : Nat}

theorem two_pow_lt_ceiling {k : Nat} (h : k < totalBits) : Nat.pow 2 k < ceiling := by
  unfold ceiling
  generalize totalBits = bits at h
  exact Nat.pow_lt_pow_right Nat.one_lt_two h

theorem representable_zero : Representable 0 :=
  ⟨Nat.lt_trans Nat.zero_lt_one (two_pow_lt_ceiling (k := 0) (by decide)), Nat.zero_mod _⟩

theorem spareBits_of_lt (h : n < Nat.pow 2 53) : spareBits n = 0 := by
  unfold spareBits
  by_cases hn : n = 0
  · subst hn; decide
  · have := (Nat.log2_lt hn).2 h
    omega

theorem spacing_of_spareBits (hs : spareBits n = 0) : spacing n = 1 := by
  rw [spacing, hs]

/-- Numbers up to and including `2 ^ 53` keep every bit. -/
theorem representable_of_le (h : n ≤ Nat.pow 2 53) : Representable n := by
  rcases Nat.lt_or_eq_of_le h with h | h
  · refine ⟨Nat.lt_trans h (two_pow_lt_ceiling (by decide)), ?_⟩
    rw [spacing_of_spareBits (spareBits_of_lt h), Nat.mod_one]
  · subst h
    exact ⟨two_pow_lt_ceiling (by decide), by decide⟩

/-- A 53-bit number, or `2 ^ 53` itself, stays representable when shifted left. -/
theorem representable_shift {r s : Nat} (lo : Nat.pow 2 52 ≤ r) (hi : r ≤ Nat.pow 2 53)
    (h : r * Nat.pow 2 s < ceiling) : Representable (r * Nat.pow 2 s) := by
  refine ⟨h, ?_⟩
  simp only [Nat.pow_eq, spacing] at *
  have hs : 0 < 2 ^ s := Nat.two_pow_pos s
  have hne : r * 2 ^ s ≠ 0 := Nat.mul_ne_zero (by omega) (by omega)
  rcases Nat.lt_or_eq_of_le hi with hi | hi
  · have hlog : (r * 2 ^ s).log2 = 52 + s := by
      refine (Nat.log2_eq_iff hne).2 ⟨?_, ?_⟩
      · rw [Nat.pow_add]; exact Nat.mul_le_mul_right _ lo
      · have : 2 ^ (52 + s + 1) = 2 ^ 53 * 2 ^ s := by rw [← Nat.pow_add]; congr 1; omega
        rw [this]; exact Nat.mul_lt_mul_of_pos_right hi hs
    rw [spareBits, hlog, Nat.add_sub_cancel_left, Nat.mul_mod_left]
  · subst hi
    rw [← Nat.pow_add, spareBits, Nat.log2_two_pow]
    exact Nat.mod_eq_zero_of_dvd (Nat.pow_dvd_pow 2 (by omega))

theorem spacing_pos (n : Nat) : 0 < spacing n := Nat.two_pow_pos (spareBits n)

/-- A quotient fits into 53 bits behind its spare ones. -/
theorem quotient_lt (n : Nat) : n / spacing n < Nat.pow 2 53 := by
  rw [Nat.div_lt_iff_lt_mul (spacing_pos n), spacing, Nat.pow_eq, Nat.pow_eq, ← Nat.pow_add]
  refine Nat.lt_of_lt_of_le Nat.lt_log2_self (Nat.pow_le_pow_right (by decide) ?_)
  unfold spareBits
  omega

/-- A quotient that has spare bits fills all 53 others. -/
theorem le_quotient (hs : spareBits n ≠ 0) : Nat.pow 2 52 ≤ n / spacing n := by
  have hn : n ≠ 0 := fun hn => hs (by rw [hn]; decide)
  rw [Nat.le_div_iff_mul_le (spacing_pos n), spacing, Nat.pow_eq, Nat.pow_eq, ← Nat.pow_add]
  refine Nat.le_trans (Nat.pow_le_pow_right (by decide) ?_) (Nat.log2_self_le hn)
  unfold spareBits at hs ⊢
  omega

/-- The kept bits of a rounded quotient are at most `2 ^ 53`. -/
theorem kept_le (num den : Nat) :
    roundHalfEven num (den * spacing (num / den)) ≤ Nat.pow 2 53 := by
  refine Nat.le_trans (roundHalfEven_le_succ _ _) ?_
  rw [← Nat.div_div_eq_div_mul]
  exact Nat.succ_le_of_lt (quotient_lt _)

/-- Where bits are dropped, the kept ones are at least `2 ^ 52`. -/
theorem le_kept (hs : spareBits (num / den) ≠ 0) :
    Nat.pow 2 52 ≤ roundHalfEven num (den * spacing (num / den)) := by
  refine Nat.le_trans ?_ (div_le_roundHalfEven _ _)
  rw [← Nat.div_div_eq_div_mul]
  exact le_quotient hs

/-- Rounding gives a representable number unless it reaches the ceiling. -/
theorem representable_nearest (h : nearest num den < ceiling) :
    Representable (nearest num den) := by
  have hkept := kept_le num den
  unfold nearest at h ⊢
  by_cases hs : spareBits (num / den) = 0
  · rw [spacing_of_spareBits hs, Nat.mul_one] at hkept ⊢
    rw [Nat.mul_one]
    exact representable_of_le hkept
  · exact representable_shift (le_kept hs) hkept h

end Binary64
end Bellows
