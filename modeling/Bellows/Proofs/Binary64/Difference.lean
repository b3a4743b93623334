import Bellows.Proofs.Binary64.Monotone

/-! Order and differences of binary64 numbers. A difference is the exact one rounded once, so a
smaller subtrahend never gives a smaller difference. -/
namespace Bellows.Binary64

variable {x y z : Binary64} {s : Bool} {num den n : Nat} {i j : Int}

theorem exists_finite (h : x.isFinite = true) : ∃ s n hn, x = .finite s n hn := by
  cases x with
  | nan => simp [isFinite] at h
  | infinite s => simp [isFinite] at h
  | finite s n hn => exact ⟨s, n, hn, rfl⟩

theorem isNan_of_isFinite (h : x.isFinite = true) : x.isNan = false := by
  obtain ⟨s, n, hn, rfl⟩ := exists_finite h
  rfl

/-- A finite number without a sign. -/
def Unsigned (x : Binary64) : Prop := ∃ n hn, x = .finite false n hn

theorem Unsigned.isFinite (h : x.Unsigned) : x.isFinite = true := by
  obtain ⟨n, hn, rfl⟩ := h
  rfl

theorem Unsigned.zero_le (h : x.Unsigned) : zero.le x = true := by
  obtain ⟨n, hn, rfl⟩ := h
  exact decide_eq_true (Int.natCast_nonneg n)

theorem Unsigned.eq_zero (h : x.Unsigned) (hx : x.rank ≤ 0) : x = zero := by
  obtain ⟨n, hn, rfl⟩ := h
  have : n = 0 := Nat.le_zero.mp (Int.ofNat_le.mp hx)
  subst this
  rfl

theorem lt_iff : x.lt y = true ↔ x.isNan = false ∧ y.isNan = false ∧ x.rank < y.rank := by
  simp [lt, and_assoc]

theorem lt_trans (hxy : x.lt y = true) (hyz : y.lt z = true) : x.lt z = true := by
  obtain ⟨hx, _, hxy⟩ := lt_iff.mp hxy
  obtain ⟨_, hz, hyz⟩ := lt_iff.mp hyz
  exact lt_iff.mpr ⟨hx, hz, Int.lt_trans hxy hyz⟩

theorem le_iff : x.le y = true ↔ x.isNan = false ∧ y.isNan = false ∧ x.rank ≤ y.rank := by
  simp [le, and_assoc]

theorem sortsBefore_iff : x.sortsBefore y = true ↔
    y.isNan = true ∨ (x.isNan = false ∧ x.rank ≤ y.rank) := by
  simp [sortsBefore]

theorem sortsBefore_refl (x : Binary64) : x.sortsBefore x = true := by
  have := sortsBefore_total x x
  simpa using this

theorem sortsBefore_of_lt (h : x.lt y = true) : x.sortsBefore y = true := by
  obtain ⟨hx, _, hxy⟩ := lt_iff.mp h
  exact sortsBefore_iff.mpr (Or.inr ⟨hx, Int.le_of_lt hxy⟩)

section

variable (hx : x.isFinite = true) (hy : y.isFinite = true)
include hx hy

/-- Finite numbers are in the order of their ranks. -/
theorem lt_iff_rank : x.lt y = true ↔ x.rank < y.rank := by
  rw [lt_iff, isNan_of_isFinite hx, isNan_of_isFinite hy]
  simp

theorem le_iff_rank : x.le y = true ↔ x.rank ≤ y.rank := by
  rw [le_iff, isNan_of_isFinite hx, isNan_of_isFinite hy]
  simp

theorem sortsBefore_iff_rank : x.sortsBefore y = true ↔ x.rank ≤ y.rank := by
  rw [sortsBefore_iff, isNan_of_isFinite hx, isNan_of_isFinite hy]
  simp

end

theorem le_self (hx : x.isFinite = true) : x.le x = true := (le_iff_rank hx hx).mpr (Int.le_refl _)

/-- Among numbers, what does not come before another one comes strictly after it. -/
theorem lt_eq_not_sortsBefore (hy : y.isNan = false) : x.lt y = !y.sortsBefore x := by
  cases hx : x.isNan
  · rw [Bool.eq_iff_iff]
    simp [lt, sortsBefore, hx, hy]
  · simp [lt, sortsBefore, hx]

theorem rank_ofGrains (s : Bool) (num den : Nat) :
    (ofGrains s num den).rank = signed s (min (nearest num den) ceiling) := by
  unfold ofGrains
  split
  · next h => rw [Nat.min_eq_left (Nat.le_of_lt h)]; rfl
  · next h => rw [Nat.min_eq_right (Nat.le_of_not_lt h)]; rfl

theorem isNan_ofGrains (s : Bool) (num den : Nat) : (ofGrains s num den).isNan = false := by
  unfold ofGrains
  split <;> rfl

/-- A whole number of grains of either sign, rounded; the infinities at the ceiling. -/
def roundGrains (i : Int) : Int := signed (i < 0) (min (nearest i.natAbs 1) ceiling)

theorem roundGrains_zero : roundGrains 0 = 0 := by
  simp [roundGrains, signed, nearest_zero]

theorem roundGrains_mono (h : i ≤ j) : roundGrains i ≤ roundGrains j := by
  have hnearest {m n : Nat} (hmn : m ≤ n) : nearest m 1 ≤ nearest n 1 :=
    nearest_mono Nat.one_pos Nat.one_pos (Nat.mul_le_mul_right 1 hmn)
  unfold roundGrains signed
  generalize ceiling = c
  by_cases hi : i < 0 <;> by_cases hj : j < 0
  · have := hnearest (show j.natAbs ≤ i.natAbs by omega)
    simp only [hi, hj, decide_true, if_true]
    omega
  · simp only [hi, hj, decide_true, decide_false, if_true, Bool.false_eq_true, if_false]
    omega
  · omega
  · have := hnearest (show i.natAbs ≤ j.natAbs by omega)
    simp only [hi, hj, decide_false, Bool.false_eq_true, if_false]
    omega

theorem signed_not (s : Bool) (n : Nat) : signed (!s) n = -signed s n := by
  cases s <;> simp [signed]

/-- The difference of finite numbers is their exact difference, rounded. -/
theorem rank_sub (hx : x.isFinite = true) (hy : y.isFinite = true) :
    (x.sub y).rank = roundGrains (x.rank - y.rank) := by
  obtain ⟨s, m, hm, rfl⟩ := exists_finite hx
  obtain ⟨t, n, hn, rfl⟩ := exists_finite hy
  have hsum : signed s m + signed (!t) n = signed s m - signed t n := by
    rw [signed_not, Int.sub_eq_add_neg]
  change rank (if signed s m + signed (!t) n = 0 then _ else _) =
    roundGrains (signed s m - signed t n)
  rw [hsum]
  split
  · next h =>
    rw [h, roundGrains_zero]
    cases s && !t <;> rfl
  · exact rank_ofGrains _ _ _

theorem isNan_sub (hx : x.isFinite = true) (hy : y.isFinite = true) : (x.sub y).isNan = false := by
  obtain ⟨s, m, hm, rfl⟩ := exists_finite hx
  obtain ⟨t, n, hn, rfl⟩ := exists_finite hy
  simp only [sub, neg, add]
  split
  · rfl
  · exact isNan_ofGrains _ _ _

/-- A gap that exceeds a tolerance still does so when it begins earlier. -/
theorem lt_sub_of_le {tolerance : Binary64} (hx : x.isFinite = true) (hy : y.isFinite = true)
    (hz : z.isFinite = true) (hxy : x.rank ≤ y.rank) (h : tolerance.lt (z.sub y) = true) :
    tolerance.lt (z.sub x) = true := by
  obtain ⟨ht, _, hgap⟩ := lt_iff.mp h
  refine lt_iff.mpr ⟨ht, isNan_sub hz hx, Int.lt_of_lt_of_le hgap ?_⟩
  rw [rank_sub hz hy, rank_sub hz hx]
  exact roundGrains_mono (by omega)

/-- A gap that exceeds a tolerance still does so when it ends later. -/
theorem lt_sub_of_ge {tolerance : Binary64} (hx : x.isFinite = true) (hy : y.isFinite = true)
    (hz : z.isFinite = true) (hyz : y.rank ≤ z.rank) (h : tolerance.lt (y.sub x) = true) :
    tolerance.lt (z.sub x) = true := by
  obtain ⟨ht, _, hgap⟩ := lt_iff.mp h
  refine lt_iff.mpr ⟨ht, isNan_sub hz hx, Int.lt_of_lt_of_le hgap ?_⟩
  rw [rank_sub hy hx, rank_sub hz hx]
  exact roundGrains_mono (by omega)

/-- A gap that exceeds a tolerance of at least zero is a step forward. -/
theorem lt_of_lt_sub {tolerance : Binary64} (htol : zero.le tolerance = true)
    (hx : x.isFinite = true) (hy : y.isFinite = true) (h : tolerance.lt (y.sub x) = true) :
    x.lt y = true := by
  obtain ⟨_, _, hgap⟩ := lt_iff.mp h
  obtain ⟨_, _, hzero⟩ := le_iff.mp htol
  refine lt_iff.mpr ⟨isNan_of_isFinite hx, isNan_of_isFinite hy, Int.lt_of_not_ge fun hle => ?_⟩
  have hback : roundGrains (y.rank - x.rank) ≤ roundGrains 0 := roundGrains_mono (by omega)
  rw [← rank_sub hy hx, roundGrains_zero] at hback
  have hz : zero.rank = 0 := rfl
  omega

end Bellows.Binary64
