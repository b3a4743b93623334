import Bellows.Proofs.Binary64.Nearest
import Bellows.Proofs.Binary64.Overflow
import Bellows.Proofs.Event.Separation

/-! How exact times are emitted. Each is rounded correctly twice, whatever it is the time of: to the
nearest number, and from there to the nearest thousandth. So the emitted times keep the order of the
exact ones and are off by little more than half a thousandth (`emit_rounded`). -/
namespace Bellows.Layout

variable {p q : Rat} {t x : Binary64}

/-- A time that an exact one is emitted as: the number nearest to a thousandth, which is the one
nearest to the number nearest to the exact time. -/
structure EmittedAs (q : Rat) (t : Binary64) : Prop where
  rounded : ∃ (x : Binary64) (k : Int), x.NearestTo q ∧ NearestMultiple (1 / 1000) k x.value ∧
    t.NearestTo (k / 1000)
  unsigned : t.Unsigned
  near : |t.value - q| ≤ 51 / 100000 + q / 2 ^ 51

theorem unsigned_ofRat? (hq : 0 ≤ q) (h : Binary64.ofRat? q = some x) :
    ∃ hn, x = .finite false (nearestGrains q) hn := by
  by_cases hlt : nearestGrains q < Binary64.ceiling
  · obtain ⟨hn, hof⟩ := ofRat?_of_lt hlt
    rw [hof, decide_eq_false (not_lt.mpr hq), Option.some.injEq] at h
    exact ⟨hn, h.symm⟩
  · rw [ofRat?_of_ge (Nat.le_of_not_lt hlt)] at h
    cases h

/-- An exact time has a nearest number that is finite exactly in front of the overflow. -/
theorem isSome_ofRat?_iff (hq : 0 ≤ q) :
    (Binary64.ofRat? q).isSome = true ↔ q < Binary64.overflow := by
  have hden : (0 : Rat) < q.den := by exact_mod_cast q.den_pos
  have hrange : q < Binary64.overflow ↔ nearestGrains q < Binary64.ceiling := by
    rw [nearestGrains, Binary64.nearest_lt_ceiling_iff q.den_pos]
    nth_rewrite 1 [← natAbs_num_div_den hq]
    rw [div_lt_iff₀ hden]
    exact_mod_cast Iff.rfl
  rw [hrange]
  by_cases hlt : nearestGrains q < Binary64.ceiling
  · obtain ⟨_, hof⟩ := ofRat?_of_lt hlt
    simp [hof, hlt]
  · simp [ofRat?_of_ge (Nat.le_of_not_lt hlt), hlt]

/-- The first rounding takes the number that is nearest to the exact time. -/
theorem nearestTo_ofRat? (hq : 0 ≤ q) (h : Binary64.ofRat? q = some x) : x.NearestTo q := by
  obtain ⟨hn, rfl⟩ := unsigned_ofRat? hq h
  have hnearest := Binary64.nearestTo_finite q.den_pos hn rfl
  rwa [natAbs_num_div_den hq] at hnearest

/-- The second one takes the nearest thousandth, as the number that is nearest to it. -/
theorem exists_thousandth (hx : x.Unsigned) : ∃ k : Int,
    NearestMultiple (1 / 1000) k x.value ∧ x.roundThousandths.NearestTo (k / 1000) := by
  obtain ⟨n, hn, rfl⟩ := hx
  obtain ⟨hr, hround⟩ := roundThousandths_finite false hn
  refine ⟨roundHalfEven (n * 1000) Binary64.unit, ?_, ?_⟩
  · have hvalue : (Binary64.finite false n hn).value =
        ((n * 1000 : Nat) : Rat) / Binary64.unit * (1 / 1000) := by
      have hrank : (Binary64.finite false n hn).rank = n := rfl
      rw [Binary64.value_eq rfl, hrank, Int.cast_natCast, Nat.cast_mul, Nat.cast_ofNat]
      generalize (Binary64.unit : Rat) = u
      ring
    rw [hvalue]
    exact nearestMultiple _ Binary64.unit_pos (by norm_num)
  · rw [hround, Int.cast_natCast]
    exact Binary64.nearestTo_finite (by decide) hr rfl

theorem emittedAs_of_emittedTime? (hq : 0 ≤ q) (h : emittedTime? q = some t) : EmittedAs q t := by
  refine ⟨?_, unsigned_of_emittedTime? hq h, ?_⟩
  · obtain ⟨x, hx, rfl⟩ := Option.map_eq_some_iff.mp h
    obtain ⟨hn, hfinite⟩ := unsigned_ofRat? hq hx
    obtain ⟨k, hk, ht⟩ := exists_thousandth ⟨_, hn, hfinite⟩
    exact ⟨x, k, nearestTo_ofRat? hq hx, hk, ht⟩
  · have hnear := abs_value_sub_le hq h
    rw [add_div] at hnear
    have hslack : (1 : Rat) / 2 ^ 51 ≤ 1 / 100000 := by norm_num
    linarith

section

variable (action action' : Action) (dynamic dynamic' : Dynamic) (measure measure' : Int)
  (note note' : Option Nat)

theorem emit_eq_ok (h : emittedTime? q = some t) :
    emit q action dynamic measure note = .ok ⟨t, action, dynamic, measure, note⟩ := by
  rw [emit, h]
  rfl

/-- How exact times within the range of the finite numbers are emitted, whatever happens at them:
in their order, each correctly rounded to the nearest number and then to thousandths; equal ones
at the same time, and zero at zero. -/
theorem emit_rounded (hp : 0 ≤ p) (hpq : p ≤ q) (hq : q < Binary64.overflow) :
    ∃ e f, emit p action dynamic measure note = .ok e ∧
      emit q action' dynamic' measure' note' = .ok f ∧
      EmittedAs p e.start ∧ EmittedAs q f.start ∧ e.start.le f.start = true ∧
      (p = q → e.start = f.start) ∧ (p = 0 → e.start = .zero) := by
  have hsome := (isSome_ofRat?_iff (hp.trans hpq)).mpr hq
  obtain ⟨t, ht⟩ := exists_emittedTime? hp hpq hsome
  obtain ⟨u, hu⟩ := exists_emittedTime? (hp.trans hpq) le_rfl hsome
  refine ⟨_, _, emit_eq_ok action dynamic measure note ht,
    emit_eq_ok action' dynamic' measure' note' hu, emittedAs_of_emittedTime? hp ht,
    emittedAs_of_emittedTime? (hp.trans hpq) hu, ?_, ?_, ?_⟩
  · rw [Binary64.le_iff_rank (isFinite_of_emittedTime? ht) (isFinite_of_emittedTime? hu)]
    exact rank_le_of_emittedTime? hpq ht hu
  · rintro rfl
    exact Option.some.inj (ht.symm.trans hu)
  · rintro rfl
    exact Option.some.inj (ht.symm.trans emittedTime?_zero)

end

/-- The start of a part, and the end of three hundred thirds of a quarter note. -/
theorem emit_rounded_thirds : (0 : Rat) ≤ 0 ∧ (0 : Rat) ≤ 200000 / 3 ∧
    (200000 / 3 : Rat) < Binary64.overflow ∧
    ∃ e f, emit 0 .inflate .f 1 (some 0) = .ok e ∧
      emit (200000 / 3) .noChange .ppp 100 none = .ok f ∧ EmittedAs 0 e.start ∧
      EmittedAs (200000 / 3) f.start ∧ e.start.le f.start = true ∧ e.start = .zero := by
  have hq : (0 : Rat) ≤ 200000 / 3 := by norm_num
  have hrange : (200000 / 3 : Rat) < Binary64.overflow := by decide +kernel
  obtain ⟨e, f, he, hf, hep, hfq, hle, _, hzero⟩ :=
    emit_rounded .inflate .noChange .f .ppp 1 100 (some 0) none le_rfl hq hrange
  exact ⟨le_rfl, hq, hrange, e, f, he, hf, hep, hfq, hle, hzero rfl⟩

/-- Halfway between two thousandths the even one is taken. -/
example : emittedTime? (1 / 16) = some (Decimal.toBinary64 false ⟨62, -3⟩) := by decide +kernel

end Bellows.Layout
