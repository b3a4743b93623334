import Bellows.Proofs.Binary64.Interval

/-! The shortest numeral of a number names it: reading the numeral gives the number back. -/
namespace Bellows

theorem digitCount_le_iff {c k : Nat} (hc : c ≠ 0) : digitCount c ≤ k ↔ c < 10 ^ k := by
  rw [digitCount, if_neg hc, decimalDigits]
  rcases Nat.eq_zero_or_pos k with rfl | hk
  · have hpos : 0 < (Nat.toDigits 10 c).length := Nat.length_toDigits_pos
    rw [Nat.pow_zero]
    omega
  · exact Nat.length_toDigits_le_iff (by decide) hk

theorem pow_le_of_ne_zero {c : Nat} (hc : c ≠ 0) :
    0 < digitCount c ∧ 10 ^ (digitCount c - 1) ≤ c := by
  have hpos : digitCount c ≠ 0 := fun hz => by
    have := (digitCount_le_iff hc).mp hz.le
    omega
  refine ⟨Nat.pos_of_ne_zero hpos, Nat.le_of_not_lt fun hlt => ?_⟩
  have hcount := (digitCount_le_iff hc).mpr hlt
  omega

namespace Decimal

variable {c : Nat} {e : Int}

/-- Numerals of a reasonable size name the number nearest to them. -/
theorem toBinary64_eq (negative : Bool) (hc : c ≠ 0) (hhigh : magnitude ⟨c, e⟩ ≤ 400)
    (hlow : -400 ≤ magnitude ⟨c, e⟩) : toBinary64 negative ⟨c, e⟩ =
      .ofRatio negative (c * 10 ^ e.toNat) (10 ^ (-e).toNat) := by
  rw [toBinary64, if_neg hc, if_neg (by omega), if_neg (by omega)]
  rfl

theorem toBinary64_zero (negative : Bool) (e : Int) :
    toBinary64 negative ⟨0, e⟩ = .finite negative 0 Binary64.representable_zero := if_pos rfl

end Decimal

namespace Binary64

variable {n c : Nat} {e : Int} {d : Decimal}

/-- A numeral on a grid lies in the interval of the number. -/
theorem within_of_numeralOnGrid? (h : numeralOnGrid? n e = some d) :
    d.exponent = e ∧ Within n (d.coefficient * 10 ^ e.toNat * unit) (10 ^ (-e).toNat) := by
  have hwithin : ∀ k : Nat, (if endsIncluded n then
      decide (halfwayBelow n * 10 ^ (-e).toNat ≤ k * (4 * unit * 10 ^ e.toNat)) &&
        decide (k * (4 * unit * 10 ^ e.toNat) ≤ halfwayAbove n * 10 ^ (-e).toNat)
      else decide (halfwayBelow n * 10 ^ (-e).toNat < k * (4 * unit * 10 ^ e.toNat)) &&
        decide (k * (4 * unit * 10 ^ e.toNat) < halfwayAbove n * 10 ^ (-e).toNat)) = true →
      Within n (k * 10 ^ e.toNat * unit) (10 ^ (-e).toNat) := by
    intro k hk
    have hstep : 4 * (k * 10 ^ e.toNat * unit) = k * (4 * unit * 10 ^ e.toNat) := by ring
    rw [Within, hstep]
    split at hk
    · next hends => simpa [hends] using hk
    · next hends => simpa [hends] using hk
  unfold numeralOnGrid? at h
  simp only [Nat.pow_eq] at h
  split at h
  · next h₁ h₂ =>
    cases h
    refine ⟨rfl, ?_⟩
    dsimp only
    split
    · exact hwithin _ h₂
    · exact hwithin _ h₁
  · next h₁ _ =>
    cases h
    exact ⟨rfl, hwithin _ h₁⟩
  · next _ h₂ =>
    cases h
    exact ⟨rfl, hwithin _ h₂⟩
  · cases h

theorem ceiling_eq : ceiling = Nat.pow 2 1024 * unit := by
  unfold ceiling totalBits unit
  generalize 1024 = wide
  generalize grainBits = bits
  exact Nat.pow_add 2 wide bits

theorem two_mul_le_halfwayBelow (hn : 0 < n) : 2 * n ≤ halfwayBelow n := by
  have := spacing_le hn
  unfold halfwayBelow
  split <;> omega

theorem halfwayAbove_le (hn : 0 < n) : halfwayAbove n ≤ 6 * n := by
  have := spacing_le hn
  unfold halfwayAbove
  omega

section

variable (h : Representable n) (hn : 0 < n)
  (hwithin : Within n (c * 10 ^ e.toNat * unit) (10 ^ (-e).toNat))
include hn hwithin

theorem le_of_within : 2 * n * 10 ^ (-e).toNat ≤ 4 * (c * 10 ^ e.toNat * unit) ∧
    4 * (c * 10 ^ e.toNat * unit) ≤ 6 * n * 10 ^ (-e).toNat := by
  have hbelow := Nat.mul_le_mul_right (10 ^ (-e).toNat) (two_mul_le_halfwayBelow hn)
  have habove := Nat.mul_le_mul_right (10 ^ (-e).toNat) (halfwayAbove_le hn)
  unfold Within at hwithin
  split at hwithin <;> omega

theorem ne_zero_of_within : c ≠ 0 := by
  rintro rfl
  have hle := (le_of_within hn hwithin).1
  have hpos : 0 < n * 10 ^ (-e).toNat := Nat.mul_pos hn (Nat.pow_pos (by decide))
  rw [Nat.zero_mul, Nat.zero_mul, Nat.mul_assoc] at hle
  omega

include h in
/-- A numeral of a finite number is not too large to be read. -/
theorem magnitude_le_of_within : Decimal.magnitude ⟨c, e⟩ ≤ 400 := by
  have hc := ne_zero_of_within hn hwithin
  have hle := (le_of_within hn hwithin).2
  by_contra hbig
  obtain ⟨limit, hlimit⟩ : ∃ limit : Nat, limit = 400 := ⟨_, rfl⟩
  have hbig : (limit : Int) < digitCount c + e := by
    rw [hlimit]
    exact Int.not_le.mp hbig
  obtain ⟨_, hdigits⟩ := pow_le_of_ne_zero hc
  have hlarge : 10 ^ limit * 10 ^ (-e).toNat ≤ c * 10 ^ e.toNat :=
    calc 10 ^ limit * 10 ^ (-e).toNat = 10 ^ (limit + (-e).toNat) := (Nat.pow_add ..).symm
      _ ≤ 10 ^ (digitCount c - 1 + e.toNat) := Nat.pow_le_pow_right (by decide) (by omega)
      _ = 10 ^ (digitCount c - 1) * 10 ^ e.toNat := Nat.pow_add ..
      _ ≤ c * 10 ^ e.toNat := Nat.mul_le_mul_right _ hdigits
  have hnum : 6 * Nat.pow 2 1024 ≤ 4 * 10 ^ limit := by
    rw [hlimit]
    decide +kernel
  have hceiling := h.1
  rw [ceiling_eq] at hceiling
  generalize Nat.pow 2 1024 = top at hnum hceiling
  have hpos := unit_pos
  refine absurd hle (Nat.not_le.mpr ?_)
  calc 6 * n * 10 ^ (-e).toNat < 6 * (top * unit) * 10 ^ (-e).toNat :=
        Nat.mul_lt_mul_of_pos_right (by omega) (Nat.pow_pos (by decide))
    _ = 6 * top * (10 ^ (-e).toNat * unit) := by ring
    _ ≤ 4 * 10 ^ limit * (10 ^ (-e).toNat * unit) := Nat.mul_le_mul_right _ hnum
    _ = 4 * (10 ^ limit * 10 ^ (-e).toNat * unit) := by ring
    _ ≤ 4 * (c * 10 ^ e.toNat * unit) :=
        Nat.mul_le_mul_left 4 (Nat.mul_le_mul_right unit hlarge)

/-- A numeral of a positive number is not too small to be read. -/
theorem le_magnitude_of_within : -400 ≤ Decimal.magnitude ⟨c, e⟩ := by
  have hc := ne_zero_of_within hn hwithin
  have hle := (le_of_within hn hwithin).1
  by_contra hsmall
  obtain ⟨limit, hlimit⟩ : ∃ limit : Nat, limit = 400 := ⟨_, rfl⟩
  have hsmall : digitCount c + e < -(limit : Int) := by
    rw [hlimit]
    exact Int.not_le.mp hsmall
  have hdigits : c < 10 ^ digitCount c := (digitCount_le_iff hc).mp (le_refl _)
  have htiny : c * 10 ^ e.toNat * 10 ^ limit ≤ 10 ^ (-e).toNat :=
    calc c * 10 ^ e.toNat * 10 ^ limit ≤ 10 ^ digitCount c * 10 ^ e.toNat * 10 ^ limit :=
          Nat.mul_le_mul_right _ (Nat.mul_le_mul_right _ hdigits.le)
      _ = 10 ^ (digitCount c + e.toNat + limit) := by rw [Nat.pow_add, Nat.pow_add]
      _ ≤ 10 ^ (-e).toNat := Nat.pow_le_pow_right (by decide) (by omega)
  have hnum : 2 * unit < 10 ^ limit := by
    rw [hlimit]
    decide +kernel
  refine absurd hle (Nat.not_le.mpr ?_)
  have hpos : 0 < c * 10 ^ e.toNat := Nat.mul_pos (Nat.pos_of_ne_zero hc) (Nat.pow_pos (by decide))
  calc 4 * (c * 10 ^ e.toNat * unit) = 2 * (c * 10 ^ e.toNat * (2 * unit)) := by ring
    _ < 2 * (c * 10 ^ e.toNat * 10 ^ limit) :=
        Nat.mul_lt_mul_of_pos_left (Nat.mul_lt_mul_of_pos_left hnum hpos) (by decide)
    _ ≤ 2 * (n * 10 ^ (-e).toNat) := Nat.mul_le_mul_left 2
        (htiny.trans (Nat.le_mul_of_pos_left _ hn))
    _ = 2 * n * 10 ^ (-e).toNat := (Nat.mul_assoc ..).symm

/-- A numeral in the interval of a number names it. -/
theorem toBinary64_of_within (negative : Bool) :
    Decimal.toBinary64 negative ⟨c, e⟩ = .finite negative n h := by
  have hnearest := nearest_of_within h (Nat.pow_pos (by decide)) hwithin
  rw [Decimal.toBinary64_eq negative (ne_zero_of_within hn hwithin)
    (magnitude_le_of_within h hn hwithin) (le_magnitude_of_within hn hwithin), ofRatio, ofGrains]
  simp only [hnearest]
  exact dif_pos h.1

end

/-- With enough places every number has an exact numeral. -/
theorem within_exact (hn : 0 < n) {places : Nat} (hplaces : grainBits ≤ places) :
    Within n (roundHalfEven (n * Nat.pow 10 places) unit * 10 ^ (-(places : Int)).toNat * unit)
      (10 ^ (- -(places : Int)).toNat) := by
  have hdvd : unit ∣ n * Nat.pow 10 places := by
    have hten : Nat.pow 10 places = Nat.pow 2 places * 5 ^ places := Nat.mul_pow 2 5 places
    rw [hten]
    unfold unit
    generalize grainBits = bits at hplaces
    exact Nat.dvd_mul_left_of_dvd (Nat.dvd_mul_right_of_dvd (Nat.pow_dvd_pow 2 hplaces) _) n
  have hexact : roundHalfEven (n * Nat.pow 10 places) unit * unit = n * 10 ^ places := by
    have hunit := unit_pos
    generalize unit = u at *
    obtain ⟨m, hm⟩ := hdvd
    rw [hm, Nat.mul_comm u m, roundHalfEven_mul m hunit, Nat.mul_comm m u, ← hm]
    rfl
  have hnum : 4 * (roundHalfEven (n * Nat.pow 10 places) unit * 10 ^ (-(places : Int)).toNat * unit)
      = 4 * n * 10 ^ places := by
    have hzero : (-(places : Int)).toNat = 0 := by omega
    rw [hzero, Nat.pow_zero, Nat.mul_one, hexact, Nat.mul_assoc]
  have hden : (- -(places : Int)).toNat = places := by omega
  have hpos : 0 < 10 ^ places := Nat.pow_pos (by decide)
  have hspacing := spacing_pos n
  have hbelow : halfwayBelow n < 4 * n := by
    unfold halfwayBelow
    split <;> omega
  have habove : 4 * n < halfwayAbove n := by
    unfold halfwayAbove
    omega
  rw [Within, hnum, hden]
  have hlow := Nat.mul_lt_mul_of_pos_right hbelow hpos
  have hhigh := Nat.mul_lt_mul_of_pos_right habove hpos
  split
  · exact ⟨hlow.le, hhigh.le⟩
  · exact ⟨hlow, hhigh⟩

theorem toBinary64_exact (h : Representable n) (hn : 0 < n) (places : Nat)
    (hplaces : grainBits ≤ places) (negative : Bool) :
    Decimal.toBinary64 negative ⟨roundHalfEven (n * Nat.pow 10 places) unit, -(places : Int)⟩ =
      .finite negative n h :=
  toBinary64_of_within h hn (within_exact hn hplaces) negative

/-- The shortest numeral of a positive number names it. -/
theorem toBinary64_shortest (h : Representable n) (hn : 0 < n) (negative : Bool) :
    (shortest n).toBinary64 negative = .finite negative n h := by
  simp only [shortest]
  cases hfound : (List.range 17).findSome? fun (k : Nat) =>
      numeralOnGrid? n (decimalMagnitude n unit - 1 - k) with
  | some d =>
    obtain ⟨k, _, hgrid⟩ := List.exists_of_findSome?_eq_some hfound
    obtain ⟨hexponent, hwithin⟩ := within_of_numeralOnGrid? hgrid
    rw [← hexponent] at hwithin
    exact toBinary64_of_within h hn hwithin negative
  | none =>
    have hexponent : (-1100 : Int) = -((1100 : Nat) : Int) := rfl
    have hplaces : grainBits ≤ 1100 := by decide
    rw [Option.getD_none, hexponent]
    generalize 1100 = places at hplaces ⊢
    exact toBinary64_exact h hn places hplaces negative

end Binary64
end Bellows
