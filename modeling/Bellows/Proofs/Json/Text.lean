import Mathlib.Tactic.SplitIfs
import Bellows.Json.Printer
import Bellows.Json.Reader

/-! Texts in JSON: every escape is read back as the character that it was written for, so a text
keeps all of its characters. -/
namespace Bellows

/-- The last hexadecimal digit stands by itself. -/
theorem hexDigits_succ {w : Nat} (hw : 0 < w) (n : Nat) :
    hexDigits (w + 1) n = hexDigits w (n / 16) ++ [(n % 16).digitChar] := by
  simp only [hexDigits]
  by_cases hn : n < 16
  · have hdiv : n / 16 = 0 := by omega
    have hmod : n % 16 = n := by omega
    obtain ⟨v, rfl⟩ : ∃ v, w = v + 1 := ⟨w - 1, by omega⟩
    rw [hdiv, hmod, Nat.toDigits_zero, Nat.toDigits_of_lt_base hn, List.length_singleton,
      List.length_singleton, Nat.add_sub_cancel, Nat.add_sub_cancel, ← List.replicate_succ']
  · rw [Nat.toDigits_of_base_le (by decide) (Nat.le_of_not_lt hn), List.length_append,
      List.length_singleton, Nat.add_sub_add_right, List.append_assoc]

theorem hexDigits_one {n : Nat} (hn : n < 16) : hexDigits 1 n = [n.digitChar] := by
  simp only [hexDigits]
  rw [Nat.toDigits_of_lt_base hn]
  rfl

namespace Json

variable {u : Nat} {c : Char} {tail rest : List Char}

theorem hexValue?_digitChar : ∀ d < 16, hexValue? d.digitChar = some d := by decide

/-- The four digits of a unit give it back. -/
theorem readUnit_hexDigits (hu : u < 0x10000) (tail : List Char) :
    readUnit (hexDigits 4 u ++ tail) = some (u, tail) := by
  have hdigits : hexDigits 4 u = [(u / 16 / 16 / 16).digitChar, (u / 16 / 16 % 16).digitChar,
      (u / 16 % 16).digitChar, (u % 16).digitChar] := by
    rw [hexDigits_succ (by decide), hexDigits_succ (by decide), hexDigits_succ (by decide),
      hexDigits_one (by omega)]
    rfl
  have hvalue :
      ((u / 16 / 16 / 16 * 16 + u / 16 / 16 % 16) * 16 + u / 16 % 16) * 16 + u % 16 = u := by
    omega
  have h₃ := hexValue?_digitChar (u / 16 / 16 / 16) (by omega)
  have h₂ := hexValue?_digitChar (u / 16 / 16 % 16) (by omega)
  have h₁ := hexValue?_digitChar (u / 16 % 16) (by omega)
  have h₀ := hexValue?_digitChar (u % 16) (by omega)
  rw [hdigits]
  simp only [List.cons_append, List.nil_append, readUnit, h₃, h₂, h₁, h₀, Option.bind_eq_bind,
    Option.bind_some, hvalue]

/-- A character is no half of a pair. -/
theorem not_surrogate (c : Char) : isHighUnit c.toNat = false ∧ isLowUnit c.toNat = false := by
  have hvalid : c.toNat < 0xd800 ∨ 0xdfff < c.toNat ∧ c.toNat < 0x110000 := c.valid
  simp only [isHighUnit, isLowUnit, Bool.and_eq_false_iff, decide_eq_false_iff_not]
  omega

/-- A character of the first 16 bits is read from its own unit. -/
theorem readEscape_unit (hc : c.toNat < 0x10000) (tail : List Char) :
    readEscape ('u' :: (hexDigits 4 c.toNat ++ tail)) = .ok (c, tail) := by
  obtain ⟨hhigh, hlow⟩ := not_surrogate c
  simp only [readEscape, readUnit_hexDigits hc, hhigh, hlow, Bool.false_eq_true, if_false,
    Char.ofNat_toNat]

/-- The two units of a character are the halves of a pair, which gives it back. -/
theorem pairedChar_units (hc : 0x10000 ≤ c.toNat) : isHighUnit (highUnit c.toNat) = true ∧
    isLowUnit (lowUnit c.toNat) = true ∧ pairedChar (highUnit c.toNat) (lowUnit c.toNat) = c := by
  have hvalid : c.toNat < 0xd800 ∨ 0xdfff < c.toNat ∧ c.toNat < 0x110000 := c.valid
  have hvalue : 0x10000 + (highUnit c.toNat - 0xd800) * 0x400 + (lowUnit c.toNat - 0xdc00) =
      c.toNat := by
    unfold highUnit lowUnit
    omega
  refine ⟨?_, ?_, by rw [pairedChar, hvalue, Char.ofNat_toNat]⟩
  · rw [isHighUnit, Bool.and_eq_true, decide_eq_true_eq, decide_eq_true_eq]
    unfold highUnit
    omega
  · rw [isLowUnit, Bool.and_eq_true, decide_eq_true_eq, decide_eq_true_eq]
    unfold lowUnit
    omega

theorem lt_of_isHighUnit (h : isHighUnit u = true) : u < 0x10000 := by
  rw [isHighUnit, Bool.and_eq_true, decide_eq_true_eq, decide_eq_true_eq] at h
  omega

theorem lt_of_isLowUnit (h : isLowUnit u = true) : u < 0x10000 := by
  rw [isLowUnit, Bool.and_eq_true, decide_eq_true_eq, decide_eq_true_eq] at h
  omega

/-- Two units that form a pair are read as one character. -/
theorem readEscape_pair {high low : Nat} (hhigh : isHighUnit high = true)
    (hlow : isLowUnit low = true) (tail : List Char) :
    readEscape ('u' :: (hexDigits 4 high ++ (unitEscape low ++ tail))) =
      .ok (pairedChar high low, tail) := by
  have hunit : unitEscape low ++ tail = '\\' :: 'u' :: (hexDigits 4 low ++ tail) := rfl
  simp only [readEscape, readUnit_hexDigits (lt_of_isHighUnit hhigh), hhigh, if_true, hunit,
    readPair, readUnit_hexDigits (lt_of_isLowUnit hlow), hlow]

/-- One character is read at a time, however it was written. -/
theorem readText_escape (fuel : Nat) (acc : List Char) (c : Char) (tail : List Char) :
    readText (fuel + 1) acc (escape c ++ tail) = readText fuel (c :: acc) tail := by
  unfold escape
  split
  · next h => subst h; rfl
  split
  · next h => subst h; rfl
  split
  · next h => subst h; rfl
  split
  · next h => subst h; rfl
  split
  · next h => subst h; rfl
  split
  · next h =>
    obtain rfl : c = Char.ofNat 12 := by rw [← h, Char.ofNat_toNat]
    rfl
  split
  · next h =>
    obtain rfl : c = Char.ofNat 8 := by rw [← h, Char.ofNat_toNat]
    rfl
  split
  · next hplain =>
    have hcontrol : ¬ c.toNat < 0x20 := by
      simp only [Bool.and_eq_true, decide_eq_true_eq] at hplain
      omega
    simp [readText, hcontrol]
  split
  · next hshort =>
    rw [unitEscape, List.cons_append, List.cons_append, readText]
    rw [readEscape_unit hshort]
    rfl
  · next hlong =>
    obtain ⟨hhigh, hlow, hpaired⟩ := pairedChar_units (Nat.le_of_not_lt hlong)
    generalize highUnit c.toNat = high at *
    generalize lowUnit c.toNat = low at *
    rw [unitEscape, List.cons_append, List.cons_append, List.cons_append, List.cons_append,
      List.append_assoc, readText, readEscape_pair hhigh hlow, hpaired]
    rfl

/-- A text is read up to its closing mark. -/
theorem readText_flatMap (cs : List Char) {fuel : Nat} (hfuel : cs.length < fuel)
    (acc rest : List Char) : readText fuel acc (cs.flatMap escape ++ '"' :: rest) =
      .ok (String.ofList (acc.reverse ++ cs), rest) := by
  induction cs generalizing fuel acc with
  | nil =>
    obtain ⟨f, rfl⟩ : ∃ f, fuel = f + 1 := ⟨fuel - 1, by rw [List.length_nil] at hfuel; omega⟩
    rw [List.append_nil]
    rfl
  | cons c cs ih =>
    rw [List.length_cons] at hfuel
    obtain ⟨f, rfl⟩ : ∃ f, fuel = f + 1 := ⟨fuel - 1, by omega⟩
    rw [List.flatMap_cons, List.append_assoc, readText_escape, ih (by omega), List.reverse_cons,
      List.append_assoc, List.singleton_append]

theorem escape_ne_nil (c : Char) : escape c ≠ [] := by
  have hescape (u : Nat) : unitEscape u ≠ [] := List.cons_ne_nil _ _
  unfold escape
  split_ifs <;> simp [hescape]

theorem length_le_flatMap_escape (cs : List Char) : cs.length ≤ (cs.flatMap escape).length := by
  induction cs with
  | nil => exact Nat.le_refl _
  | cons c cs ih =>
    have hpos := List.length_pos_iff.mpr (escape_ne_nil c)
    rw [List.flatMap_cons, List.length_append, List.length_cons]
    omega

/-- A text that was written is read back with all of its characters. -/
theorem readText_textChars (s : String) {fuel : Nat} (hfuel : (textChars s).length ≤ fuel)
    (rest : List Char) : ∃ body, textChars s ++ rest = '"' :: body ∧
      readText fuel [] body = .ok (s, rest) := by
  refine ⟨s.toList.flatMap escape ++ '"' :: rest, by simp [textChars], ?_⟩
  have hlen := length_le_flatMap_escape s.toList
  have hchars : (textChars s).length = (s.toList.flatMap escape).length + 2 := by
    simp [textChars]
  rw [readText_flatMap s.toList (by omega), List.reverse_nil, List.nil_append, String.ofList_toList]

end Json
end Bellows
