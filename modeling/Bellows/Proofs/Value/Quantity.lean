import Bellows.Proofs.Binary64.HalfUp
import Bellows.Value.Quantity

/-! Numbers of documents: they are compared by their exact values, and rounding them to binary64
numbers keeps their order, though it may make two of them the same. -/
namespace Bellows

namespace Binary64

variable {x : Binary64} {n : Int}

/-- The ceiling is a power of two, which rounding leaves alone. -/
theorem nearest_ceiling : nearest ceiling 1 = ceiling := by
  have hdvd : spacing ceiling ∣ ceiling := by
    unfold ceiling
    generalize totalBits = bits
    rw [spacing, spareBits, Nat.pow_eq, Nat.pow_eq, Nat.log2_two_pow]
    exact Nat.pow_dvd_pow 2 (Nat.sub_le bits 52)
  unfold nearest
  rw [Nat.div_one, Nat.one_mul]
  have hpos := spacing_pos ceiling
  generalize spacing ceiling = p at hdvd hpos
  generalize ceiling = c at hdvd
  obtain ⟨q, rfl⟩ := hdvd
  rw [Nat.mul_comm p q, roundHalfEven_mul q hpos]

/-- What rounding its magnitude does not change is not changed. -/
theorem roundGrains_of_nearest {i : Int} (h : min (nearest i.natAbs 1) ceiling = i.natAbs) :
    roundGrains i = i := by
  unfold roundGrains signed
  rw [h]
  by_cases hi : i < 0
  · rw [decide_eq_true hi, if_pos rfl]
    omega
  · rw [decide_eq_false hi, if_neg Bool.false_ne_true]
    omega

theorem roundGrains_of_representable {i : Int} (h : Representable i.natAbs) : roundGrains i = i :=
  roundGrains_of_nearest
    (by rw [nearest_of_representable h, Nat.min_eq_left (Nat.le_of_lt h.1)])

/-- Rounding does not change what is a number already. -/
theorem roundGrains_rank (h : x.isNan = false) : roundGrains x.rank = x.rank := by
  have habs (s : Bool) (m : Nat) : (signed s m).natAbs = m := by cases s <;> simp [signed]
  cases x with
  | nan => cases h
  | finite s m hm =>
    refine roundGrains_of_representable (i := signed s m) ?_
    rw [habs]
    exact hm
  | infinite s =>
    refine roundGrains_of_nearest (i := signed s ceiling) ?_
    rw [habs, nearest_ceiling, Nat.min_self]

theorem ofInt?_eq_some (h : ofInt? n = some x) :
    x = ofRatio (n < 0) n.natAbs 1 ∧ x.isFinite = true := by
  unfold ofInt? finite? at h
  split at h
  · next hfinite =>
    have hx := Option.some.inj h
    exact ⟨hx.symm, hx ▸ hfinite⟩
  · cases h

end Binary64

namespace Quantity

open Binary64

variable {p q : Quantity} {x y : Binary64}

@[simp] theorem lt_whole (m n : Int) : (whole m).lt (whole n) = decide (m < n) := by
  rw [lt, order?, decide_eq_decide, Option.some_inj, Int.compare_eq_lt]

@[simp] theorem le_whole (m n : Int) : (whole m).le (whole n) = decide (m ≤ n) := by
  rw [le, order?, ← Bool.decide_or, decide_eq_decide, Option.some_inj, Option.some_inj,
    Int.compare_eq_lt, Int.compare_eq_eq, Int.le_iff_lt_or_eq]

@[simp] theorem le_zero_finite (s : Bool) {n : Nat} (hn : Representable n) :
    (real (.finite s n hn)).le (whole 0) = decide (signed s n ≤ 0) := by
  rw [le, order?, order?.wholeToReal, Option.map_some, Int.compare_swap, Int.zero_mul,
    ← Bool.decide_or, decide_eq_decide, Option.some_inj, Option.some_inj, Int.compare_eq_lt,
    Int.compare_eq_eq, Int.le_iff_lt_or_eq]

/-- The exact value of a number in grains; the infinities are at the ceiling. -/
def grains : Quantity → Int
  | whole n => n * unit
  | real x => x.rank

/-- A number becomes its exact value, rounded once. -/
theorem rank_eq_roundGrains (h : q.toBinary64? = some x) (hx : x.isNan = false) :
    x.rank = roundGrains q.grains := by
  cases q with
  | whole n =>
    have hround : x = ofRatio (n < 0) n.natAbs 1 := (ofInt?_eq_some h).1
    have hsign : decide (n < 0) = decide (n * (unit : Int) < 0) := by
      have hunit : (0 : Int) < unit := Int.natCast_pos.mpr unit_pos
      generalize (unit : Int) = u at hunit
      rw [decide_eq_decide]
      exact ⟨fun hn => Int.mul_neg_of_neg_of_pos hn hunit, fun hn => Int.lt_of_not_ge fun hge =>
        Int.not_le.mpr hn (Int.mul_nonneg hge (Int.le_of_lt hunit))⟩
    rw [hround, ofRatio, rank_ofGrains, grains, roundGrains, hsign, Int.natAbs_mul,
      Int.natAbs_natCast]
  | real y =>
    cases h
    exact (roundGrains_rank hx).symm

/-- A whole number that has a nearest number lies between the infinities. -/
theorem natAbs_grains_lt {n : Int} (h : ofInt? n = some x) :
    (whole n).grains.natAbs < ceiling := by
  obtain ⟨hround, hfinite⟩ := ofInt?_eq_some h
  have hlt : nearest (n.natAbs * unit) 1 < ceiling := by
    rw [hround, ofRatio, ofGrains] at hfinite
    split at hfinite
    · next hlt => exact hlt
    · cases hfinite
  rw [grains, Int.natAbs_mul, Int.natAbs_natCast]
  refine Nat.lt_of_not_le fun hle => Nat.lt_irrefl ceiling ?_
  calc ceiling
      = nearest ceiling 1 := nearest_ceiling.symm
    _ ≤ nearest (n.natAbs * unit) 1 :=
      nearest_mono Nat.one_pos Nat.one_pos (Nat.mul_le_mul_right 1 hle)
    _ < ceiling := hlt

theorem wholeToReal_eq {n : Int} (h : ofInt? n = some x) (hy : y.isNan = false) :
    order?.wholeToReal n y = some (compare (whole n).grains y.rank) := by
  have hbound := natAbs_grains_lt h
  cases y with
  | nan => cases hy
  | finite s m hm => rfl
  | infinite s =>
    unfold order?.wholeToReal rank
    generalize (whole n).grains = g at hbound ⊢
    generalize ceiling = c at hbound ⊢
    cases s with
    | false =>
      have hlt : compare g (signed false c) = .lt :=
        Int.compare_eq_lt.mpr (show g < (c : Int) by omega)
      rw [hlt]
      rfl
    | true =>
      have hgt : compare g (signed true c) = .gt :=
        Int.compare_eq_gt.mpr (show -(c : Int) < g by omega)
      rw [hgt]
      rfl

theorem compare_grains_whole (m n : Int) :
    compare (whole m).grains (whole n).grains = compare m n := by
  have hunit : (0 : Int) < unit := Int.natCast_pos.mpr unit_pos
  unfold grains
  generalize (unit : Int) = u at hunit ⊢
  rcases Int.lt_trichotomy m n with hlt | rfl | hgt
  · rw [Int.compare_eq_lt.mpr hlt, Int.compare_eq_lt.mpr (Int.mul_lt_mul_of_pos_right hlt hunit)]
  · rw [Int.compare_eq_eq.mpr rfl, Int.compare_eq_eq.mpr rfl]
  · rw [Int.compare_eq_gt.mpr hgt, Int.compare_eq_gt.mpr (Int.mul_lt_mul_of_pos_right hgt hunit)]

/-- Numbers of both kinds are compared by their exact values. -/
theorem order?_eq (hp : p.toBinary64? = some x) (hq : q.toBinary64? = some y)
    (hx : x.isNan = false) (hy : y.isNan = false) :
    order? p q = some (compare p.grains q.grains) := by
  cases p with
  | whole m =>
    have hm : ofInt? m = some x := hp
    cases q with
    | whole n => rw [order?, compare_grains_whole]
    | real z =>
      obtain rfl : z = y := Option.some.inj hq
      rw [order?, wholeToReal_eq hm hy]
      rfl
  | real z =>
    obtain rfl : z = x := Option.some.inj hp
    cases q with
    | whole n =>
      have hn : ofInt? n = some y := hq
      rw [order?, wholeToReal_eq hn hx, Option.map_some, Int.compare_swap]
      rfl
    | real w =>
      obtain rfl : w = y := Option.some.inj hq
      simp only [order?, hx, hy, Bool.or_self, Bool.false_eq_true, if_false, grains]

theorem grains_lt_of_not_le (hp : p.toBinary64? = some x) (hq : q.toBinary64? = some y)
    (hx : x.isNan = false) (hy : y.isNan = false) (h : q.le p = false) : p.grains < q.grains := by
  rw [le, order?_eq hq hp hy hx] at h
  refine Int.lt_of_not_ge fun hge => ?_
  rcases Int.lt_or_eq_of_le hge with hlt | heq
  · rw [Int.compare_eq_lt.mpr hlt] at h
    cases h
  · rw [Int.compare_eq_eq.mpr heq] at h
    cases h

/-- Rounding never turns the order of two numbers around. -/
theorem rank_le_of_not_le (hp : p.toBinary64? = some x) (hq : q.toBinary64? = some y)
    (hx : x.isNan = false) (hy : y.isNan = false) (h : q.le p = false) : x.rank ≤ y.rank := by
  rw [rank_eq_roundGrains hp hx, rank_eq_roundGrains hq hy]
  exact roundGrains_mono (Int.le_of_lt (grains_lt_of_not_le hp hq hx hy h))

/-- What is not below zero is not rounded below zero. -/
theorem zero_le_of_not_lt (hq : q.toBinary64? = some x) (hx : x.isNan = false)
    (h : q.lt (whole 0) = false) : zero.le x = true := by
  have hzero : (whole 0).toBinary64? = some zero := by decide +kernel
  have hgrains : 0 ≤ q.grains := by
    rw [lt, order?_eq hq hzero hx rfl] at h
    refine Int.le_of_not_gt fun hneg => ?_
    have hlt : q.grains < (whole 0).grains := by rwa [grains, Int.zero_mul]
    rw [Int.compare_eq_lt.mpr hlt] at h
    cases h
  have hrank := roundGrains_mono hgrains
  rw [roundGrains_zero, ← rank_eq_roundGrains hq hx] at hrank
  exact le_iff.mpr ⟨rfl, hx, hrank⟩

/-- A number that rounding does not change: whole numbers of any size are, up to `2 ^ 53`. -/
def Exact : Quantity → Prop
  | whole n => n.natAbs ≤ Nat.pow 2 53
  | real x => x.isNan = false

theorem rank_of_exact (hq : q.toBinary64? = some x) (h : q.Exact) :
    x.isNan = false ∧ x.rank = q.grains := by
  cases q with
  | real y =>
    obtain rfl : y = x := Option.some.inj hq
    exact ⟨h, rfl⟩
  | whole n =>
    have hx : x.isNan = false := isNan_of_isFinite (ofInt?_eq_some hq).2
    refine ⟨hx, ?_⟩
    rw [rank_eq_roundGrains hq hx]
    refine roundGrains_of_representable ?_
    rw [grains, Int.natAbs_mul, Int.natAbs_natCast]
    exact representable_whole h

end Quantity
end Bellows
