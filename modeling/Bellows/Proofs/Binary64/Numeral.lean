import Mathlib.Data.List.DropRight
import Bellows.Binary64.Text
import Bellows.Proofs.Binary64.Shortest
import Bellows.Proofs.Text.Digits

/-! Numbers as they are written: the parts of a numeral, and that they name the number again
however the numeral is laid out. -/
namespace Bellows

namespace Decimal

variable {n c k : Nat} {e : Int} {d : Decimal} {negative : Bool}

theorem digitCount_mul_pow (hc : c ≠ 0) (k : Nat) : digitCount (c * 10 ^ k) = digitCount c + k := by
  have hten : 0 < 10 ^ k := Nat.pow_pos (by decide)
  have hne : c * 10 ^ k ≠ 0 := Nat.mul_ne_zero hc hten.ne'
  obtain ⟨hpos, hlow⟩ := pow_le_of_ne_zero hc
  refine Nat.le_antisymm ((digitCount_le_iff hne).mpr ?_) (Nat.le_of_not_lt fun hlt => ?_)
  · rw [Nat.pow_add]
    exact Nat.mul_lt_mul_of_pos_right ((digitCount_le_iff hc).mp (le_refl _)) hten
  · have hsmall := (digitCount_le_iff hne).mp (Nat.le_sub_one_of_lt hlt)
    have hsplit : digitCount c + k - 1 = digitCount c - 1 + k := by omega
    rw [hsplit, Nat.pow_add] at hsmall
    exact absurd (Nat.lt_of_mul_lt_mul_right hsmall) (Nat.not_lt.mpr hlow)

/-- Zeros moved from the exponent into the coefficient do not change what a numeral names. -/
theorem toBinary64_shift (negative : Bool) (c k : Nat) (e : Int) :
    toBinary64 negative ⟨c * 10 ^ k, e - k⟩ = toBinary64 negative ⟨c, e⟩ := by
  by_cases hc : c = 0
  · rw [hc, Nat.zero_mul, toBinary64_zero, toBinary64_zero]
  have hne : c * 10 ^ k ≠ 0 := Nat.mul_ne_zero hc (Nat.pow_pos (by decide)).ne'
  have hmagnitude : magnitude ⟨c * 10 ^ k, e - k⟩ = magnitude ⟨c, e⟩ := by
    simp only [magnitude, digitCount_mul_pow hc]
    omega
  have hpow : k + (e - k).toNat + (-e).toNat = e.toNat + (-(e - k)).toNat := by omega
  have hratio : Binary64.ofRatio negative (c * 10 ^ k * Nat.pow 10 (e - k).toNat)
      (Nat.pow 10 (-(e - k)).toNat) =
        Binary64.ofRatio negative (c * Nat.pow 10 e.toNat) (Nat.pow 10 (-e).toNat) := by
    have hnearest := Binary64.nearest_congr
      (a := c * 10 ^ k * Nat.pow 10 (e - k).toNat * Binary64.unit)
      (b := Nat.pow 10 (-(e - k)).toNat) (c := c * Nat.pow 10 e.toNat * Binary64.unit)
      (d := Nat.pow 10 (-e).toNat) (Nat.pow_pos (by decide)) (Nat.pow_pos (by decide)) (by
        simp only [Nat.pow_eq]
        calc c * 10 ^ k * 10 ^ (e - k).toNat * Binary64.unit * 10 ^ (-e).toNat
            = c * 10 ^ (k + (e - k).toNat + (-e).toNat) * Binary64.unit := by
              rw [Nat.pow_add, Nat.pow_add]
              ring
          _ = c * 10 ^ e.toNat * Binary64.unit * 10 ^ (-(e - k)).toNat := by
              rw [hpow, Nat.pow_add]
              ring)
    simp only [Binary64.ofRatio, Binary64.ofGrains, hnearest]
  simp only [toBinary64, if_neg hc, if_neg hne, hmagnitude, hratio]

/-- The digits of a coefficient without its final zeros. -/
structure Trimmed (n : Nat) (kept : List Char) (dropped : Nat) : Prop where
  value : Numeral.digitsValue kept * 10 ^ dropped = n
  digits : ∀ c ∈ kept, c.isDigit = true
  head : ∃ c ds, kept = c :: ds ∧ c ≠ '0'

theorem trimmed_trimmed (hn : 0 < n) : Trimmed n (trimmed n).1 (trimmed n).2 := by
  have hkept : (trimmed n).1 = (decimalDigits n).rdropWhile (· == '0') := rfl
  have happend : (decimalDigits n).rdropWhile (· == '0') ++
      (decimalDigits n).rtakeWhile (· == '0') = decimalDigits n := List.rdropWhile_append_rtakeWhile
  have hzeros : (decimalDigits n).rtakeWhile (· == '0') = List.replicate (trimmed n).2 '0' := by
    refine List.eq_replicate_iff.mpr ⟨?_, fun c hc => ?_⟩
    · have hlen := congrArg List.length happend
      rw [List.length_append] at hlen
      change _ = (decimalDigits n).length - (trimmed n).1.length
      rw [hkept]
      omega
    · simpa using List.mem_rtakeWhile_imp hc
  rw [← hkept, hzeros] at happend
  have hdigits : ∀ c ∈ (trimmed n).1, c.isDigit = true := by
    intro c hc
    refine isDigit_of_mem_decimalDigits (n := n) ?_
    rw [← happend]
    exact List.mem_append_left _ hc
  refine ⟨?_, hdigits, ?_⟩
  · rw [← Numeral.digitsValue_append_zeros, happend, digitsValue_decimalDigits]
  · obtain ⟨c, ds, hds, hc⟩ := head?_decimalDigits hn
    rw [hds] at happend
    cases hk : (trimmed n).1 with
    | nil =>
      rw [hk, List.nil_append] at happend
      have hmem : c ∈ List.replicate (trimmed n).2 '0' := by
        rw [happend]
        exact List.mem_cons_self
      exact (hc (List.eq_of_mem_replicate hmem)).elim
    | cons c' ds' =>
      rw [hk, List.cons_append, List.cons.injEq] at happend
      exact ⟨c', ds', rfl, happend.1 ▸ hc⟩

/-- The parts of a numeral: the digits before and behind the point, and the exponent. -/
structure Parts where
  whole : List Char
  fraction : List Char
  exponent : Option Int

namespace Parts

/-- The digits of a fraction behind their point; no digits need no point. -/
def fractionChars (digits : List Char) : List Char :=
  if digits.isEmpty then [] else '.' :: digits

/-- A numeral in its parts. -/
def chars (p : Parts) : List Char :=
  p.whole ++ (fractionChars p.fraction ++ (p.exponent.map exponentText).getD [])

/-- What a numeral stands for. -/
def numeral (p : Parts) : Decimal :=
  ⟨Numeral.digitsValue (p.whole ++ p.fraction), p.exponent.getD 0 - p.fraction.length⟩

/-- Parts of a number that is not whole by its form. -/
structure Valid (p : Parts) : Prop where
  whole : ∀ c ∈ p.whole, c.isDigit = true
  head : p.whole = ['0'] ∨ ∃ c ds, p.whole = c :: ds ∧ c ≠ '0'
  fraction : ∀ c ∈ p.fraction, c.isDigit = true
  broken : p.fraction ≠ [] ∨ p.exponent.isSome = true

end Parts

/-- Parts that a numeral was laid out in. -/
structure Shows (d : Decimal) (cs : List Char) (p : Parts) : Prop where
  valid : p.Valid
  chars : p.chars = cs
  same : ∀ negative, p.numeral.toBinary64 negative = d.toBinary64 negative

variable {kept : List Char} {dropped : Nat}

theorem Trimmed.same (h : Trimmed d.coefficient kept dropped) (negative : Bool) :
    toBinary64 negative ⟨Numeral.digitsValue kept, d.exponent + dropped⟩ =
      d.toBinary64 negative := by
  have hshift := toBinary64_shift negative (Numeral.digitsValue kept) dropped (d.exponent + dropped)
  rw [h.value, Int.add_sub_cancel] at hshift
  exact hshift.symm

/-- The scientific form: one digit, the others behind a point, and an exponent. -/
theorem shows_scientific (h : Trimmed d.coefficient kept dropped) :
    ∃ p, Shows d (scientific kept (kept.length + d.exponent + dropped - 1)) p := by
  obtain ⟨c, ds, rfl, hc⟩ := h.head
  have hdigits := List.forall_mem_cons.mp h.digits
  refine ⟨⟨[c], ds, some _⟩, ⟨?_, Or.inr ⟨c, [], rfl, hc⟩, hdigits.2, Or.inr rfl⟩, rfl, ?_⟩
  · intro b hb
    obtain rfl := List.mem_singleton.mp hb
    exact hdigits.1
  · intro negative
    rw [← h.same negative, Parts.numeral]
    congr 2
    simp only [Option.getD_some, List.length_cons]
    omega

/-- Digits that all stand behind the point, after zeros. -/
theorem shows_behind (h : Trimmed d.coefficient kept dropped) {point : Int}
    (hpoint : point = kept.length + d.exponent + dropped) (hle : point ≤ 0) :
    ∃ p, Shows d (positional true kept point) p := by
  have hchars : positional true kept point =
      '0' :: '.' :: (List.replicate (-point).toNat '0' ++ kept) := if_pos hle
  obtain ⟨c, ds, hkept, _⟩ := h.head
  have hne : List.replicate (-point).toNat '0' ++ kept ≠ [] := by
    rw [hkept]
    exact List.append_ne_nil_of_right_ne_nil _ (List.cons_ne_nil c ds)
  refine ⟨⟨['0'], List.replicate (-point).toNat '0' ++ kept, none⟩,
    ⟨?_, Or.inl rfl, ?_, Or.inl hne⟩, ?_, ?_⟩
  · intro b hb
    obtain rfl := List.mem_singleton.mp hb
    rfl
  · intro b hb
    rcases List.mem_append.mp hb with hzero | hb
    · rw [List.eq_of_mem_replicate hzero]
      rfl
    · exact h.digits b hb
  · rw [hchars, Parts.chars, Parts.fractionChars, if_neg (mt List.isEmpty_iff.mp hne)]
    simp
  · intro negative
    have hvalue : Numeral.digitsValue (['0'] ++ (List.replicate (-point).toNat '0' ++ kept)) =
        Numeral.digitsValue kept := by
      rw [← List.append_assoc]
      exact Numeral.digitsValue_zeros_append ((-point).toNat + 1) kept
    rw [← h.same negative, Parts.numeral, hvalue]
    congr 2
    simp only [Option.getD_none, List.length_append, List.length_replicate]
    omega

/-- Digits that all stand before the point, with zeros up to it and one behind it. -/
theorem shows_before (h : Trimmed d.coefficient kept dropped) {point : Int}
    (hpoint : point = kept.length + d.exponent + dropped) (hpos : 0 < point)
    (hle : kept.length ≤ point.toNat) : ∃ p, Shows d (positional true kept point) p := by
  have hchars : positional true kept point =
      kept ++ List.replicate (point.toNat - kept.length) '0' ++ ['.', '0'] := by
    rw [positional, if_neg (Int.not_le.mpr hpos), if_pos hle, if_pos rfl]
  obtain ⟨c, ds, hkept, hc⟩ := h.head
  refine ⟨⟨kept ++ List.replicate (point.toNat - kept.length) '0', ['0'], none⟩,
    ⟨?_, Or.inr ⟨c, _, by rw [hkept, List.cons_append], hc⟩, ?_, Or.inl (List.cons_ne_nil _ _)⟩,
    ?_, ?_⟩
  · intro b hb
    rcases List.mem_append.mp hb with hb | hzero
    · exact h.digits b hb
    · rw [List.eq_of_mem_replicate hzero]
      rfl
  · intro b hb
    obtain rfl := List.mem_singleton.mp hb
    rfl
  · rw [hchars]
    rfl
  · intro negative
    have hvalue : Numeral.digitsValue (kept ++ List.replicate (point.toNat - kept.length) '0' ++
        ['0']) = Numeral.digitsValue kept * 10 ^ (point.toNat - kept.length + 1) := by
      rw [← Numeral.digitsValue_append_zeros, List.append_assoc, List.replicate_add]
      rfl
    have hexponent : (0 : Int) - (['0'] : List Char).length =
        d.exponent + dropped - (point.toNat - kept.length + 1 : Nat) := by
      rw [List.length_singleton]
      omega
    have hshift := toBinary64_shift negative (Numeral.digitsValue kept)
      (point.toNat - kept.length + 1) (d.exponent + dropped)
    rw [← hvalue, ← hexponent, h.same negative] at hshift
    exact hshift

/-- Digits on both sides of the point. -/
theorem shows_around (h : Trimmed d.coefficient kept dropped) {point : Int}
    (hpoint : point = kept.length + d.exponent + dropped) (hpos : 0 < point)
    (hlt : point.toNat < kept.length) : ∃ p, Shows d (positional true kept point) p := by
  have hchars : positional true kept point =
      kept.take point.toNat ++ '.' :: kept.drop point.toNat := by
    rw [positional, if_neg (Int.not_le.mpr hpos), if_neg (Nat.not_le.mpr hlt)]
  obtain ⟨c, ds, hkept, hc⟩ := h.head
  have hne : kept.drop point.toNat ≠ [] := by
    rw [Ne, List.drop_eq_nil_iff]
    omega
  obtain ⟨k, hk⟩ : ∃ k, point.toNat = k + 1 := ⟨point.toNat - 1, by omega⟩
  refine ⟨⟨kept.take point.toNat, kept.drop point.toNat, none⟩,
    ⟨fun b hb => h.digits b (List.mem_of_mem_take hb),
      Or.inr ⟨c, ds.take k, by rw [hkept, hk, List.take_succ_cons], hc⟩,
      fun b hb => h.digits b (List.mem_of_mem_drop hb), Or.inl hne⟩, ?_, ?_⟩
  · rw [hchars, Parts.chars, Parts.fractionChars, if_neg (mt List.isEmpty_iff.mp hne)]
    simp
  · intro negative
    rw [← h.same negative, Parts.numeral, List.take_append_drop]
    congr 2
    simp only [Option.getD_none, List.length_drop]
    omega

/-- However a positive numeral is laid out, its parts stand for what it names. -/
theorem shows_layOut (hc : 0 < d.coefficient) : ∃ p, Shows d (d.layOut .exact) p := by
  have h := trimmed_trimmed hc
  simp only [layOut]
  split
  · exact shows_scientific h
  · by_cases hpos : 0 < ((trimmed d.coefficient).1.length : Int) + d.exponent +
        (trimmed d.coefficient).2
    · by_cases hlt : (((trimmed d.coefficient).1.length : Int) + d.exponent +
          (trimmed d.coefficient).2).toNat < (trimmed d.coefficient).1.length
      · exact shows_around h rfl hpos hlt
      · exact shows_before h rfl hpos (Nat.le_of_not_lt hlt)
    · exact shows_behind h rfl (Int.not_lt.mp hpos)

end Decimal

namespace Binary64

variable {n : Nat}

/-- The numeral of a finite magnitude. -/
def magnitudeChars (n : Nat) : List Char :=
  if n = 0 then ['0', '.', '0'] else (shortest n).layOut .exact

theorem coefficient_shortest_pos (h : Representable n) (hn : 0 < n) :
    0 < (shortest n).coefficient := by
  refine Nat.pos_of_ne_zero fun hzero => ?_
  have hnames := toBinary64_shortest h hn false
  rw [Decimal.toBinary64, if_pos hzero] at hnames
  cases hnames
  exact Nat.lt_irrefl 0 hn

/-- Every finite number is written in parts that name it again. -/
theorem exists_parts (h : Representable n) (negative : Bool) :
    ∃ p : Decimal.Parts, p.Valid ∧ p.chars = magnitudeChars n ∧
      p.numeral.toBinary64 negative = .finite negative n h := by
  unfold magnitudeChars
  by_cases hn : n = 0
  · subst hn
    have hdigit : ∀ c ∈ ['0'], c.isDigit = true := List.forall_mem_singleton.mpr rfl
    exact ⟨⟨['0'], ['0'], none⟩, ⟨hdigit, Or.inl rfl, hdigit, Or.inl (List.cons_ne_nil _ _)⟩, rfl,
      Decimal.toBinary64_zero negative _⟩
  · rw [if_neg hn]
    have hpos := Nat.pos_of_ne_zero hn
    obtain ⟨p, hp⟩ := Decimal.shows_layOut (coefficient_shortest_pos h hpos)
    exact ⟨p, hp.valid, hp.chars, (hp.same negative).trans (toBinary64_shortest h hpos negative)⟩

end Binary64
end Bellows
