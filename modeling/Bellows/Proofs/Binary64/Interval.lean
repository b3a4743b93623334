import Mathlib.Tactic.Linarith
import Mathlib.Tactic.Ring
import Bellows.Binary64.Decimal
import Bellows.Proofs.Binary64.Monotone

/-! The interval of a number: every quotient between its two halfway points rounds to it. -/
namespace Bellows

variable {q num den : Nat}

/-- Rounding gives the whole number that is less than a half away, or an even one that is exactly a
half away. -/
theorem roundHalfEven_eq (hden : 0 < den)
    (hlow : 2 * q * den < 2 * num + den ∨ (2 * q * den = 2 * num + den ∧ q % 2 = 0))
    (hhigh : 2 * num < (2 * q + 1) * den ∨ (2 * num = (2 * q + 1) * den ∧ q % 2 = 0)) :
    roundHalfEven num den = q := by
  refine Nat.le_antisymm (Nat.le_of_not_lt fun hlt => ?_) ?_
  · rcases (lt_roundHalfEven_iff hden).mp hlt with hpast | ⟨htie, hodd⟩
    · omega
    · omega
  · rcases Nat.eq_zero_or_pos q with rfl | hq
    · exact Nat.zero_le _
    · obtain ⟨k, rfl⟩ : ∃ k, q = k + 1 := ⟨q - 1, by omega⟩
      refine Nat.succ_le_of_lt ((lt_roundHalfEven_iff hden).mpr ?_)
      have hexp : 2 * (k + 1) * den = (2 * k + 1) * den + den := by ring
      rcases hlow with hlt | ⟨heq, heven⟩
      · exact Or.inl (by omega)
      · exact Or.inr ⟨by omega, by omega⟩

namespace Binary64

variable {n k : Nat}

/-- Whether a quotient lies between the halfway points of a number. -/
def Within (n num den : Nat) : Prop :=
  if endsIncluded n then halfwayBelow n * den ≤ 4 * num ∧ 4 * num ≤ halfwayAbove n * den
  else halfwayBelow n * den < 4 * num ∧ 4 * num < halfwayAbove n * den

theorem spareBits_le (h : n < 2 ^ (53 + k)) : spareBits n ≤ k := by
  rcases Nat.eq_zero_or_pos n with rfl | hn
  · simp [spareBits]
  · have := (Nat.log2_lt (Nat.ne_of_gt hn)).mpr h
    unfold spareBits
    omega

theorem spacing_le (hn : 0 < n) : spacing n ≤ n := by
  by_cases hs : spareBits n = 0
  · rw [spacing_of_spareBits hs]
    exact hn
  · have hquot := le_quotient hs
    exact (Nat.div_pos_iff.mp (Nat.lt_of_lt_of_le (Nat.two_pow_pos 52) hquot)).2

/-- A number is a multiple of its spacing, and fits into 53 bits in front of it. -/
theorem exists_mul_spacing (h : Representable n) : ∃ q, n = q * spacing n ∧ q < 2 ^ 53 ∧
    n / spacing n = q := by
  refine ⟨n / spacing n, ?_, quotient_lt n, rfl⟩
  exact (Nat.div_mul_cancel (Nat.dvd_of_mod_eq_zero h.2)).symm

/-- Where the quotient has the spacing of the number and is at most half of it away, the number is
nearest to it. -/
theorem nearest_of_spacing (h : Representable n) (hden : 0 < den)
    (hspacing : spacing (num / den) = spacing n) (hlow : (4 * n - 2 * spacing n) * den ≤ 4 * num)
    (hhigh : 4 * num ≤ (4 * n + 2 * spacing n) * den)
    (hends : endsIncluded n = false →
      (4 * n - 2 * spacing n) * den < 4 * num ∧ 4 * num < (4 * n + 2 * spacing n) * den) :
    nearest num den = n := by
  obtain ⟨q, hn, _, hquot⟩ := exists_mul_spacing h
  have hpos := spacing_pos n
  have heven : endsIncluded n = false ∨ q % 2 = 0 := by
    rw [endsIncluded, hquot]
    by_cases hq : q % 2 = 0
    · exact Or.inr hq
    · exact Or.inl (decide_eq_false hq)
  rw [nearest, hspacing]
  generalize spacing n = s at *
  have hbelow : (4 * n - 2 * s) * den = 4 * (q * (den * s)) - 2 * (den * s) := by
    rw [hn, Nat.sub_mul]
    congr 1 <;> ring
  have habove : (4 * n + 2 * s) * den = 4 * (q * (den * s)) + 2 * (den * s) := by
    rw [hn]
    ring
  have hstep : 2 * q * (den * s) = 2 * (q * (den * s)) := Nat.mul_assoc _ _ _
  have hnext : (2 * q + 1) * (den * s) = 2 * (q * (den * s)) + den * s := by ring
  rw [hbelow] at hlow hends
  rw [habove] at hhigh hends
  refine (congrArg (· * s) (roundHalfEven_eq (Nat.mul_pos hden hpos) ?_ ?_)).trans hn.symm
  · rcases heven with hodd | heven
    · have := (hends hodd).1
      omega
    · omega
  · rcases heven with hodd | heven
    · have := (hends hodd).2
      omega
    · omega

/-- What lies in the interval of a number is at most as large as what its spacing goes with. -/
theorem spareBits_quotient_le (h : Representable n) (hden : 0 < den)
    (hhigh : 4 * num ≤ halfwayAbove n * den) : spareBits (num / den) ≤ spareBits n := by
  obtain ⟨q, hn, hq, _⟩ := exists_mul_spacing h
  have hpos := Nat.mul_pos (spacing_pos n) hden
  refine spareBits_le ((Nat.div_lt_iff_lt_mul hden).mpr ?_)
  have hpow : 2 ^ (53 + spareBits n) * den = 2 ^ 53 * (spacing n * den) := by
    rw [spacing, Nat.pow_eq, Nat.pow_add]
    ring
  have habove : halfwayAbove n * den = 4 * (q * (spacing n * den)) + 2 * (spacing n * den) := by
    unfold halfwayAbove
    nth_rewrite 1 [hn]
    ring
  have hmul := Nat.mul_le_mul_right (spacing n * den) (Nat.succ_le_of_lt hq)
  rw [Nat.succ_mul] at hmul
  rw [habove] at hhigh
  omega

/-- The numbers below the first one of a binade are finer, so only a quarter of its own spacing
rounds up to it. -/
theorem nearest_of_two_pow (hden : 0 < den) (hn : n = 2 ^ (53 + k))
    (hspacing : spacing n = 2 * 2 ^ k) (hlow : (4 * n - spacing n) * den ≤ 4 * num)
    (hlt : num < n * den) : nearest num den = n := by
  have hpos := Nat.mul_pos hden (Nat.two_pow_pos k)
  have hsize : n * den = 2 ^ 53 * (den * 2 ^ k) := by
    rw [hn, Nat.pow_add]
    ring
  have hbelow : (4 * n - spacing n) * den = 4 * (2 ^ 53 * (den * 2 ^ k)) - 2 * (den * 2 ^ k) := by
    rw [Nat.sub_mul, Nat.mul_assoc, hsize, hspacing]
    congr 1
    ring
  rw [hbelow] at hlow
  rw [hsize] at hlt
  have hquot : spareBits (num / den) = k := by
    refine Nat.le_antisymm (spareBits_le ?_) (le_spareBits ?_)
    · rw [Nat.div_lt_iff_lt_mul hden, ← hn, hsize]
      exact hlt
    · have hhalf : Nat.pow 2 (52 + k) * den = 2 ^ 52 * (den * 2 ^ k) := by
        rw [Nat.pow_eq, Nat.pow_add]
        ring
      rw [Nat.le_div_iff_mul_le hden, hhalf]
      omega
  have hround : roundHalfEven num (den * 2 ^ k) = 2 ^ 53 :=
    roundHalfEven_eq hpos (by omega) (by omega)
  rw [nearest, spacing, hquot, Nat.pow_eq, hround, hn, Nat.pow_add]

/-- Above the first number of its binade, half a spacing down stays in the binade. -/
theorem le_spareBits_quotient (h : Representable n) (hden : 0 < den) (hspare : spareBits n ≠ 0)
    (hfirst : n ≠ 2 ^ (52 + spareBits n)) (hlow : (4 * n - 2 * spacing n) * den ≤ 4 * num) :
    spareBits n ≤ spareBits (num / den) := by
  obtain ⟨q, hn, _, hquot⟩ := exists_mul_spacing h
  have hpow : 2 ^ (52 + spareBits n) = 2 ^ 52 * spacing n := by
    rw [spacing, Nat.pow_eq, Nat.pow_add]
  have hq : 2 ^ 52 + 1 ≤ q := by
    have hge : 2 ^ 52 ≤ q := hquot ▸ le_quotient hspare
    rcases Nat.lt_or_eq_of_le hge with hlt | heq
    · exact hlt
    · exact (hfirst (by rw [hpow, heq, ← hn])).elim
  have hmul := Nat.mul_le_mul_right (spacing n * den) hq
  have hbelow : (4 * n - 2 * spacing n) * den =
      4 * (q * (spacing n * den)) - 2 * (spacing n * den) := by
    rw [Nat.sub_mul]
    nth_rewrite 1 [hn]
    congr 1 <;> ring
  rw [hbelow] at hlow
  refine le_spareBits ((Nat.le_div_iff_mul_le hden).mpr ?_)
  rw [Nat.pow_eq, hpow, Nat.mul_assoc]
  rw [Nat.add_mul, Nat.one_mul] at hmul
  omega

/-- Every quotient in the interval of a positive number rounds to it. -/
theorem nearest_of_within (h : Representable n) (hden : 0 < den) (hwithin : Within n num den) :
    nearest num den = n := by
  have hle : halfwayBelow n * den ≤ 4 * num ∧ 4 * num ≤ halfwayAbove n * den := by
    unfold Within at hwithin
    split at hwithin
    · exact hwithin
    · exact ⟨hwithin.1.le, hwithin.2.le⟩
  have hends : endsIncluded n = false →
      halfwayBelow n * den < 4 * num ∧ 4 * num < halfwayAbove n * den := by
    intro hodd
    rwa [Within, hodd, if_neg (by decide)] at hwithin
  have hupper := spareBits_quotient_le h hden hle.2
  have hpos := spacing_pos n
  unfold halfwayAbove at hle hends
  unfold halfwayBelow at hle hends
  by_cases hfirst : (n = Nat.pow 2 (52 + spareBits n) && spareBits n ≠ 0) = true
  · -- The binade below is finer: only what lies above the number rounds as usual.
    rw [if_pos hfirst] at hle hends
    obtain ⟨hpow, hspare⟩ : n = 2 ^ (52 + spareBits n) ∧ spareBits n ≠ 0 := by
      simpa using hfirst
    obtain ⟨k, hk⟩ : ∃ k, spareBits n = k + 1 := ⟨spareBits n - 1, by omega⟩
    by_cases hlt : num < n * den
    · have hn : n = 2 ^ (53 + k) := by
        rw [hpow, hk]
        congr 1
        omega
      exact nearest_of_two_pow hden hn (by rw [spacing, hk, Nat.pow_eq, Nat.pow_succ, Nat.mul_comm])
        hle.1 hlt
    · have hquot : n ≤ num / den := (Nat.le_div_iff_mul_le hden).mpr (Nat.le_of_not_lt hlt)
      have hspacing : spacing (num / den) = spacing n :=
        congrArg (Nat.pow 2) (Nat.le_antisymm hupper (spareBits_mono hquot))
      have hfiner : (4 * n - 2 * spacing n) * den ≤ (4 * n - spacing n) * den :=
        Nat.mul_le_mul_right den (by omega)
      exact nearest_of_spacing h hden hspacing (hfiner.trans hle.1) hle.2 fun hodd =>
        ⟨hfiner.trans_lt (hends hodd).1, (hends hodd).2⟩
  · rw [if_neg hfirst] at hle hends
    have hlower : spareBits n ≤ spareBits (num / den) := by
      by_cases hspare : spareBits n = 0
      · omega
      · refine le_spareBits_quotient h hden hspare (fun hpow => hfirst ?_) hle.1
        simpa using ⟨hpow, hspare⟩
    exact nearest_of_spacing h hden (congrArg (Nat.pow 2) (Nat.le_antisymm hupper hlower)) hle.1
      hle.2 hends

end Binary64
end Bellows
