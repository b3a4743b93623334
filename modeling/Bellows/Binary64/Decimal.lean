import Bellows.Binary64.Basic

/-!
Decimal numerals of binary64 numbers: the one a numeral names, and the shortest one that names a
given number. A numeral names the number nearest to it.
-/
namespace Bellows

/-- The numeral `coefficient · 10 ^ exponent`. -/
structure Decimal where
  coefficient : Nat
  exponent : Int
  deriving DecidableEq, Repr

/-- The decimal digits of a whole number; zero has one. -/
def decimalDigits (n : Nat) : List Char := Nat.toDigits 10 n

/-- How many digits a whole number has; zero has none. -/
def digitCount (n : Nat) : Nat := if n = 0 then 0 else (decimalDigits n).length

namespace Decimal

/-- The exponent of the first power of ten that is larger than the numeral. -/
def magnitude (d : Decimal) : Int := digitCount d.coefficient + d.exponent

/-- The value of the numeral. -/
def toRat (d : Decimal) : Rat :=
  mkRat (d.coefficient * Nat.pow 10 d.exponent.toNat : Nat) (Nat.pow 10 (-d.exponent).toNat)

/-- The number nearest to the numeral. Beyond `10 ^ 400` that is an infinity and below `10 ^ -400`
it is zero, so that no large power is ever formed. -/
def toBinary64 (negative : Bool) (d : Decimal) : Binary64 :=
  if d.coefficient = 0 then .finite negative 0 Binary64.representable_zero
  else if 400 < d.magnitude then .infinite negative
  else if d.magnitude < -400 then .finite negative 0 Binary64.representable_zero
  else
    .ofRatio negative (d.coefficient * Nat.pow 10 d.exponent.toNat) (Nat.pow 10 (-d.exponent).toNat)

end Decimal

namespace Binary64

/-- The numbers that round to a count of grains, in quarters of a grain: half a step each way,
but only a quarter step down from the first number of a binade. -/
def halfwayBelow (n : Nat) : Nat :=
  if n = Nat.pow 2 (52 + spareBits n) && spareBits n ≠ 0 then 4 * n - spacing n
  else 4 * n - 2 * spacing n

def halfwayAbove (n : Nat) : Nat := 4 * n + 2 * spacing n

/-- The ends of the interval round to the number itself when its last kept bit is zero. -/
def endsIncluded (n : Nat) : Bool := n / spacing n % 2 = 0

/-- The exponent of the first power of ten that is larger than `num / den`. -/
def decimalMagnitude (num den : Nat) : Int :=
  if den ≤ num then digitCount (num / den)
  else 1 - digitCount ((den + num - 1) / num - 1)

/-- The better of the two numerals around `n` grains on the grid of step `10 ^ e`, if one of them
names that number: the nearer one, and of two equally near ones the even one. -/
def numeralOnGrid? (n : Nat) (e : Int) : Option Decimal :=
  let up := Nat.pow 10 (-e).toNat
  let step := 4 * unit * Nat.pow 10 e.toNat
  let c := 4 * n * up / step
  let names (k : Nat) : Bool :=
    if endsIncluded n then halfwayBelow n * up ≤ k * step && k * step ≤ halfwayAbove n * up
    else halfwayBelow n * up < k * step && k * step < halfwayAbove n * up
  let rest := 4 * n * up % step
  let upper := step < 2 * rest || (step = 2 * rest && c % 2 = 1)
  match names c, names (c + 1) with
  | true, true => some ⟨if upper then c + 1 else c, e⟩
  | true, false => some ⟨c, e⟩
  | false, true => some ⟨c + 1, e⟩
  | false, false => none

/-- The shortest numeral that names a positive count of grains; seventeen digits always suffice. -/
def shortest (n : Nat) : Decimal :=
  let top := decimalMagnitude n unit
  let found := (List.range 17).findSome? fun (k : Nat) => numeralOnGrid? n (top - 1 - k)
  found.getD ⟨roundHalfEven (n * Nat.pow 10 1100) unit, -1100⟩

/-- The whole number nearest to `n` grains times `10 ^ places`; a half goes to the even one. -/
def roundedTo (n places : Nat) : Nat := roundHalfEven (n * Nat.pow 10 places) unit

/-- The numeral of at most `digits` significant digits nearest to a positive count of grains. -/
def toSignificant (n digits : Nat) : Decimal :=
  let e := decimalMagnitude n unit - digits
  ⟨roundHalfEven (n * Nat.pow 10 (-e).toNat) (unit * Nat.pow 10 e.toNat), e⟩

end Binary64
end Bellows
