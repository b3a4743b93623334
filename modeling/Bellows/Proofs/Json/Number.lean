import Mathlib.Data.List.TakeDrop
import Bellows.Json.Printer
import Bellows.Json.Reader
import Bellows.Proofs.Binary64.Numeral

/-! Numbers in JSON: a number that was written is read back, whatever may stand behind it. -/
namespace Bellows.Json

variable {ds rest : List Char} {c : Char} {p : Decimal.Parts} {negative : Bool} {n : Nat}

/-- Text behind a number that cannot be taken for a part of it. -/
def Closes (rest : List Char) : Prop :=
  ∀ c ∈ rest.head?, c.isDigit = false ∧ c ≠ '.' ∧ c ≠ 'e' ∧ c ≠ 'E'

theorem closes_nil : Closes [] := by
  intro c hc
  cases hc

theorem closes_cons (h : c.isDigit = false ∧ c ≠ '.' ∧ c ≠ 'e' ∧ c ≠ 'E') (cs : List Char) :
    Closes (c :: cs) := by
  intro d hd
  obtain rfl : c = d := Option.some.inj hd
  exact h

/-- A run of digits ends where something else follows. -/
theorem span_isDigit (hds : ∀ c ∈ ds, c.isDigit = true)
    (hrest : ∀ c ∈ rest.head?, c.isDigit = false) :
    (ds ++ rest).span Char.isDigit = (ds, rest) := by
  have htake : rest.takeWhile Char.isDigit = [] := by
    cases rest with
    | nil => rfl
    | cons c cs => exact List.takeWhile_cons_of_neg (by simp [hrest c rfl])
  have hdrop : rest.dropWhile Char.isDigit = rest := by
    cases rest with
    | nil => rfl
    | cons c cs => exact List.dropWhile_cons_of_neg (by simp [hrest c rfl])
  rw [List.span_eq_takeWhile_dropWhile, List.takeWhile_append_of_pos hds,
    List.dropWhile_append_of_pos hds, htake, hdrop, List.append_nil]

/-- A whole part has no zero in front of other digits. -/
theorem wholeDigits_append (hds : ∀ c ∈ ds, c.isDigit = true)
    (hhead : ds = ['0'] ∨ ∃ c cs, ds = c :: cs ∧ c ≠ '0')
    (hrest : ∀ c ∈ rest.head?, c.isDigit = false) :
    wholeDigits (ds ++ rest) = some (ds, rest) := by
  rcases hhead with rfl | ⟨c, cs, rfl, hc⟩
  · rfl
  · have hspan := span_isDigit hds hrest
    rw [List.cons_append] at hspan ⊢
    unfold wholeDigits
    split
    · next heq =>
      cases heq
      exact (hc rfl).elim
    · rw [hspan]
      rfl

theorem fractionDigits_append (hds : ∀ c ∈ ds, c.isDigit = true)
    (hrest : ∀ c ∈ rest.head?, c.isDigit = false ∧ c ≠ '.') :
    fractionDigits (Decimal.Parts.fractionChars ds ++ rest) = (ds, rest) := by
  unfold Decimal.Parts.fractionChars
  by_cases hne : ds = []
  · subst hne
    rw [if_pos List.isEmpty_nil, List.nil_append]
    unfold fractionDigits
    split
    · next rest' => exact ((hrest '.' rfl).2 rfl).elim
    · rfl
  · rw [if_neg (mt List.isEmpty_iff.mp hne), List.cons_append, fractionDigits,
      span_isDigit hds fun c hc => (hrest c hc).1]
    exact if_neg (mt List.isEmpty_iff.mp hne)

theorem exponentPart_of_closes (h : Closes rest) : exponentPart rest = (none, rest) := by
  cases rest with
  | nil => rfl
  | cons c cs =>
    obtain ⟨_, _, he, hE⟩ := h c rfl
    simp [exponentPart, he, hE]

/-- An exponent is read with its sign. -/
theorem exponentPart_append (e : Int) (h : Closes rest) :
    exponentPart (Decimal.exponentText e ++ rest) = (some e, rest) := by
  obtain ⟨digits, hdigits⟩ : ∃ digits, digits = if (decimalDigits e.natAbs).length < 2 then
      '0' :: decimalDigits e.natAbs else decimalDigits e.natAbs := ⟨_, rfl⟩
  have hvalue : Numeral.digitsValue digits = e.natAbs := by
    rw [hdigits]
    split
    · exact (Numeral.digitsValue_zeros_append 1 _).trans (digitsValue_decimalDigits _)
    · exact digitsValue_decimalDigits _
  have hall : ∀ c ∈ digits, c.isDigit = true := by
    intro c hc
    rw [hdigits] at hc
    split at hc
    · rcases List.mem_cons.mp hc with rfl | hc
      · rfl
      · exact isDigit_of_mem_decimalDigits hc
    · exact isDigit_of_mem_decimalDigits hc
  have hne : digits.isEmpty = false := by
    rw [List.isEmpty_eq_false_iff, hdigits]
    split
    · exact List.cons_ne_nil _ _
    · exact decimalDigits_ne_nil _
  have hspan := span_isDigit hall fun c hc => (h c hc).1
  have htext : Decimal.exponentText e ++ rest =
      'e' :: (if e < 0 then '-' else '+') :: (digits ++ rest) := by
    rw [hdigits]
    rfl
  rw [htext]
  by_cases hneg : e < 0
  · have habs : -(e.natAbs : Int) = e := by omega
    simp only [exponentPart, Numeral.splitSign, if_pos hneg, hspan, hne, hvalue, habs]
    rfl
  · have habs : (e.natAbs : Int) = e := by omega
    simp only [exponentPart, Numeral.splitSign, if_neg hneg, hspan, hne, hvalue, habs]
    rfl

theorem not_digit_exponent (e : Option Int) (h : Closes rest) :
    ∀ c ∈ ((e.map Decimal.exponentText).getD [] ++ rest).head?, c.isDigit = false ∧ c ≠ '.' := by
  intro c hc
  cases e with
  | none => exact ⟨(h c hc).1, (h c hc).2.1⟩
  | some e =>
    obtain rfl : 'e' = c := Option.some.inj hc
    decide

theorem not_digit_fraction (hrest : ∀ c ∈ rest.head?, c.isDigit = false) (ds : List Char) :
    ∀ c ∈ (Decimal.Parts.fractionChars ds ++ rest).head?, c.isDigit = false := by
  intro c hc
  unfold Decimal.Parts.fractionChars at hc
  split at hc
  · exact hrest c hc
  · obtain rfl : '.' = c := Option.some.inj hc
    rfl

/-- A number with a fraction or an exponent is the one that its parts stand for. -/
theorem readNumber_parts (hp : p.Valid) (hrest : Closes rest) (negative : Bool) :
    readNumber negative (p.chars ++ rest) =
      .ok (.float (p.numeral.toBinary64 negative), rest) := by
  have hexponent := not_digit_exponent p.exponent hrest
  have hwhole := wholeDigits_append hp.whole hp.head
    (not_digit_fraction (fun c hc => (hexponent c hc).1) p.fraction)
  have hfraction := fractionDigits_append hp.fraction hexponent
  have hread : exponentPart ((p.exponent.map Decimal.exponentText).getD [] ++ rest) =
      (p.exponent, rest) := by
    cases p.exponent with
    | none => exact exponentPart_of_closes hrest
    | some e => exact exponentPart_append e hrest
  have hbroken : (p.fraction.isEmpty && p.exponent.isNone) = false := by
    rcases hp.broken with hne | hsome
    · rw [List.isEmpty_eq_false_iff.mpr hne, Bool.false_and]
    · cases hexp : p.exponent with
      | none =>
        rw [hexp] at hsome
        cases hsome
      | some e => exact Bool.and_false _
  rw [Decimal.Parts.chars, List.append_assoc, List.append_assoc, readNumber]
  simp only [hwhole, hfraction, hread, hbroken]
  rfl

/-- Digits alone are a whole number. -/
theorem readNumber_digits (hlength : (decimalDigits n).length ≤ digitLimit) (hrest : Closes rest)
    (negative : Bool) : readNumber negative (decimalDigits n ++ rest) =
      .ok (.int (if negative then -(n : Int) else n), rest) := by
  have hhead : decimalDigits n = ['0'] ∨ ∃ c cs, decimalDigits n = c :: cs ∧ c ≠ '0' := by
    rcases Nat.eq_zero_or_pos n with rfl | hn
    · exact Or.inl rfl
    · exact Or.inr (head?_decimalDigits hn)
  have hwhole := wholeDigits_append (fun c hc => isDigit_of_mem_decimalDigits hc) hhead
    fun c hc => (hrest c hc).1
  have hfraction : fractionDigits rest = ([], rest) := by
    have happend := @fractionDigits_append [] rest (by simp) fun c hc =>
      ⟨(hrest c hc).1, (hrest c hc).2.1⟩
    exact happend
  rw [readNumber]
  simp only [hwhole, hfraction, exponentPart_of_closes hrest, digitsValue_decimalDigits,
    if_neg (Nat.not_lt.mpr hlength)]
  rfl

/-- A word is not found where the text has a digit in the place of a letter. -/
theorem afterWord?_eq_none {word : String} {cs : List Char} {i : Nat} (hc : cs[i]? = some c)
    (hdigit : c.isDigit = true) (hword : (word.toList[i]?.any fun l => !l.isDigit) = true) :
    afterWord? word cs = none := by
  refine if_neg fun hbegins => ?_
  obtain ⟨l, hl, hletter⟩ := (Option.any_eq_true _ _).mp hword
  obtain ⟨tail, rfl⟩ := List.isPrefixOf_iff_prefix.mp hbegins
  have hi := (List.getElem?_eq_some_iff.mp hl).1
  rw [List.getElem?_append_left hi, hl] at hc
  cases hc
  simp [hdigit] at hletter

/-- No word begins as a number does. -/
theorem readScalar_number {cs : List Char} (hhead : ∃ c ds, cs = c :: ds ∧ c.isDigit = true)
    (negative : Bool) :
    readScalar (if negative then '-' :: cs else cs) = readNumber negative cs := by
  obtain ⟨c, ds, rfl, hc⟩ := hhead
  have hfirst : ∀ w ∈ words, (w.1.toList[0]?.any fun l => !l.isDigit) = true := by decide
  have hsecond : ∀ w ∈ words, (w.1.toList[1]?.any fun l => !l.isDigit) = true := by decide
  have hnone : ∀ w ∈ words,
      afterWord? w.1 (if negative then '-' :: c :: ds else c :: ds) = none := by
    intro w hw
    cases negative with
    | false => exact afterWord?_eq_none (i := 0) rfl hc (hfirst w hw)
    | true => exact afterWord?_eq_none (i := 1) rfl hc (hsecond w hw)
  unfold readScalar
  split
  · next heq =>
    obtain ⟨w, hw, hword⟩ := List.exists_of_findSome?_eq_some heq
    obtain ⟨_, hafter, _⟩ := Option.map_eq_some_iff.mp hword
    cases (hnone w hw).symm.trans hafter
  · cases negative with
    | true => rfl
    | false =>
      have hminus : c ≠ '-' := by
        rintro rfl
        cases hc
      simp [hminus]

theorem toList_toString_int (n : Int) : (toString n).toList =
    if n < 0 then '-' :: decimalDigits n.natAbs else decimalDigits n.natAbs := by
  rw [Int.toString_eq_repr, Int.repr_eq_if]
  by_cases hn : n < 0
  · have habs : (-n).toNat = n.natAbs := by omega
    rw [if_neg (Int.not_le.mpr hn), if_pos hn, String.toList_append, Nat.toList_repr, habs]
    rfl
  · have habs : n.toNat = n.natAbs := by omega
    rw [if_pos (Int.not_lt.mp hn), if_neg hn, Nat.toList_repr, habs]
    rfl

theorem head_digits (m : Nat) : ∃ c ds, decimalDigits m = c :: ds ∧ c.isDigit = true := by
  obtain ⟨c, ds, hds⟩ := List.exists_cons_of_ne_nil (decimalDigits_ne_nil m)
  exact ⟨c, ds, hds, isDigit_of_mem_decimalDigits (hds ▸ List.mem_cons_self)⟩

theorem head_magnitudeChars (h : Binary64.Representable n) :
    ∃ c ds, Binary64.magnitudeChars n = c :: ds ∧ c.isDigit = true := by
  obtain ⟨p, hp, hchars, _⟩ := Binary64.exists_parts h false
  obtain ⟨c, ds, hds⟩ : ∃ c ds, p.whole = c :: ds := by
    rcases hp.head with hzero | ⟨c, ds, hds, _⟩
    · exact ⟨'0', [], hzero⟩
    · exact ⟨c, ds, hds⟩
  have hdigit : c.isDigit = true := hp.whole c (hds ▸ List.mem_cons_self)
  rw [← hchars, Decimal.Parts.chars, hds, List.cons_append]
  exact ⟨c, _, rfl, hdigit⟩

theorem numberChars_finite (s : Bool) (h : Binary64.Representable n) :
    numberChars (.finite s n h) =
      if s then '-' :: Binary64.magnitudeChars n else Binary64.magnitudeChars n := by
  change (Binary64.withSign s (Binary64.magnitudeChars n)).toList = _
  cases s <;> exact String.toList_ofList

theorem readScalar_int {m : Int} (hlength : (decimalDigits m.natAbs).length ≤ digitLimit)
    (hrest : Closes rest) : readScalar ((toString m).toList ++ rest) = .ok (.int m, rest) := by
  obtain ⟨c, ds, hds, hc⟩ := head_digits m.natAbs
  have hnumber := @readScalar_number (decimalDigits m.natAbs ++ rest)
    ⟨c, ds ++ rest, by rw [hds, List.cons_append], hc⟩ (decide (m < 0))
  rw [readNumber_digits hlength hrest] at hnumber
  rw [toList_toString_int]
  by_cases hm : m < 0
  · have habs : -(m.natAbs : Int) = m := by omega
    simp only [hm, decide_true, if_true, habs, List.cons_append] at hnumber ⊢
    exact hnumber
  · have habs : (m.natAbs : Int) = m := by omega
    simp only [hm, decide_false, if_false, habs, Bool.false_eq_true] at hnumber ⊢
    exact hnumber

/-- Every number that is written as JSON is read back as itself. -/
theorem readScalar_float (x : Binary64) (hrest : Closes rest) :
    readScalar (numberChars x ++ rest) = .ok (.float x, rest) := by
  cases x with
  | nan => rfl
  | infinite s => cases s <;> rfl
  | finite s n h =>
    obtain ⟨p, hp, hchars, hnames⟩ := Binary64.exists_parts h s
    obtain ⟨c, ds, hds, hc⟩ := head_magnitudeChars h
    have hnumber := @readScalar_number (Binary64.magnitudeChars n ++ rest)
      ⟨c, ds ++ rest, by rw [hds, List.cons_append], hc⟩ s
    rw [← hchars, readNumber_parts hp hrest, hnames, hchars] at hnumber
    rw [numberChars_finite]
    cases s <;> exact hnumber

end Bellows.Json
