import Bellows.Event.Layout
import Bellows.Proofs.Binary64.Difference

/-! Emitted times. An exact start is rounded twice, but both roundings keep order, so events never
overtake each other. -/
namespace Bellows.Layout

variable {p q : Rat} {t u : Binary64}

/-- The grains of the number nearest to a magnitude. -/
def nearestGrains (q : Rat) : Nat := Binary64.nearest (q.num.natAbs * Binary64.unit) q.den

theorem nearestGrains_mono (hp : 0 ≤ p) (h : p ≤ q) : nearestGrains p ≤ nearestGrains q := by
  have hpn : 0 ≤ p.num := Rat.num_nonneg.mpr hp
  have hqn : 0 ≤ q.num := Rat.num_nonneg.mpr (Rat.le_trans hp h)
  have hcross := (Rat.le_iff p q).mp h
  rw [← Int.natAbs_of_nonneg hpn, ← Int.natAbs_of_nonneg hqn] at hcross
  have hnat : p.num.natAbs * q.den ≤ q.num.natAbs * p.den := by exact_mod_cast hcross
  refine Binary64.nearest_mono p.den_pos q.den_pos ?_
  rw [Nat.mul_right_comm, Nat.mul_right_comm q.num.natAbs]
  exact Nat.mul_le_mul_right _ hnat

/-- The sign of a magnitude does not count. -/
theorem nearestGrains_neg (q : Rat) : nearestGrains (-q) = nearestGrains q := by
  rw [nearestGrains, nearestGrains, Rat.neg_num, Int.natAbs_neg, Rat.neg_den]

/-- A number of grains, rounded to thousandths, is a number again. -/
theorem roundThousandths_finite (s : Bool) {n : Nat} (hn : Binary64.Representable n) :
    ∃ hr, Binary64.roundThousandths (.finite s n hn) =
      .finite s (Binary64.thousandthGrains n) hr := by
  have hlt := Binary64.thousandthGrains_lt_ceiling hn
  refine ⟨Binary64.representable_nearest hlt, ?_⟩
  unfold Binary64.thousandthGrains at hlt ⊢
  rw [Binary64.roundThousandths, Binary64.ofRatio, Binary64.ofGrains, dif_pos hlt]

theorem ofRat?_of_lt (h : nearestGrains q < Binary64.ceiling) :
    ∃ hn, Binary64.ofRat? q = some (.finite (q < 0) (nearestGrains q) hn) := by
  refine ⟨Binary64.representable_nearest h, ?_⟩
  have hgrains (s : Bool) : Binary64.ofGrains s (q.num.natAbs * Binary64.unit) q.den =
      .finite s (nearestGrains q) (Binary64.representable_nearest h) := dif_pos h
  rw [Binary64.ofRat?, Binary64.ofRatio, hgrains]
  rfl

theorem ofRat?_of_ge (h : Binary64.ceiling ≤ nearestGrains q) : Binary64.ofRat? q = none := by
  have hgrains (s : Bool) : Binary64.ofGrains s (q.num.natAbs * Binary64.unit) q.den =
      .infinite s := dif_neg (Nat.not_lt.mpr h)
  rw [Binary64.ofRat?, Binary64.ofRatio, hgrains]
  rfl

/-- A start is emitted when it rounds to a finite number, as that number to thousandths. -/
theorem emittedTime?_eq_some : emittedTime? q = some t ↔
    nearestGrains q < Binary64.ceiling ∧
      ∃ hn, t = .finite (q < 0) (Binary64.thousandthGrains (nearestGrains q)) hn := by
  by_cases h : nearestGrains q < Binary64.ceiling
  · obtain ⟨hn, hof⟩ := ofRat?_of_lt h
    obtain ⟨hr, hround⟩ := roundThousandths_finite (q < 0) hn
    rw [emittedTime?, hof, Option.map_some, hround, Option.some.injEq]
    constructor
    · rintro rfl
      exact ⟨h, hr, rfl⟩
    · rintro ⟨_, _, rfl⟩
      rfl
  · rw [emittedTime?, ofRat?_of_ge (Nat.le_of_not_lt h)]
    simp [h]

theorem unsigned_of_emittedTime? (hq : 0 ≤ q) (h : emittedTime? q = some t) : t.Unsigned := by
  obtain ⟨_, hn, rfl⟩ := emittedTime?_eq_some.mp h
  have hsign : decide (q < 0) = false := decide_eq_false (Rat.not_lt.mpr hq)
  exact ⟨_, hn, by simp only [hsign]⟩

/-- Only finite times are emitted, also in front of zero. -/
theorem isFinite_of_emittedTime? (h : emittedTime? q = some t) : t.isFinite = true := by
  obtain ⟨_, _, rfl⟩ := emittedTime?_eq_some.mp h
  rfl

/-- What starts later is not emitted earlier. -/
theorem rank_le_of_emittedTime? (hpq : p ≤ q) (ht : emittedTime? p = some t)
    (hu : emittedTime? q = some u) : t.rank ≤ u.rank := by
  obtain ⟨_, _, rfl⟩ := emittedTime?_eq_some.mp ht
  obtain ⟨_, _, rfl⟩ := emittedTime?_eq_some.mp hu
  have hforwards (hp : 0 ≤ p) := Binary64.thousandthGrains_mono (nearestGrains_mono hp hpq)
  have hbackwards (hq : q < 0) : Binary64.thousandthGrains (nearestGrains q) ≤
      Binary64.thousandthGrains (nearestGrains p) := by
    have hmono : nearestGrains (-q) ≤ nearestGrains (-p) :=
      nearestGrains_mono (Rat.neg_le_neg (Rat.le_of_lt hq)) (Rat.neg_le_neg hpq)
    rw [nearestGrains_neg, nearestGrains_neg] at hmono
    exact Binary64.thousandthGrains_mono hmono
  by_cases hp : p < 0
  · by_cases hq : q < 0
    · have := hbackwards hq
      simp only [Binary64.rank, Binary64.signed, hp, hq, decide_true, if_true]
      omega
    · simp only [Binary64.rank, Binary64.signed, hp, hq, decide_true, decide_false, if_true,
        Bool.false_eq_true, if_false]
      omega
  · have hq : ¬ q < 0 := Rat.not_lt.mpr (Rat.le_trans (Rat.not_lt.mp hp) hpq)
    have := hforwards (Rat.not_lt.mp hp)
    simp only [Binary64.rank, Binary64.signed, hp, hq, decide_false, Bool.false_eq_true, if_false]
    omega

theorem emittedTime?_zero : emittedTime? 0 = some .zero := by
  have hzero : nearestGrains 0 = 0 := by
    rw [nearestGrains, Rat.zero_num, Int.natAbs_zero, Nat.zero_mul]
    exact Binary64.nearest_zero (Rat.den_pos 0)
  refine emittedTime?_eq_some.mpr ⟨?_, ?_⟩
  · rw [hzero]
    exact Binary64.representable_zero.1
  · rw [hzero, Binary64.thousandthGrains_zero]
    exact ⟨Binary64.representable_zero, rfl⟩

end Bellows.Layout
