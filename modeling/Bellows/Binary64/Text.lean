import Bellows.Binary64.Decimal

/-!
How numbers are written. A schedule writes the shortest numeral that reads back as the number;
messages round to one place, and the summary of a conversion to six significant digits.
-/
namespace Bellows

/-- Where a layout changes from positional to exponent form, and what it keeps. -/
structure NumberLayout where
  /-- The least exponent that is written positionally. -/
  leastExponent : Int
  /-- The first exponent that is too large to be written positionally. -/
  exponentLimit : Int
  /-- Whether a whole number keeps a point and a zero. -/
  keepsPoint : Bool

/-- Schedules and messages: positional from `1e-4` up to `1e16`, with a point in every number. -/
def NumberLayout.exact : NumberLayout := ⟨-4, 16, true⟩

/-- Summaries: six digits, positional up to a million, no point in whole numbers. -/
def NumberLayout.brief : NumberLayout := ⟨-4, 6, false⟩

namespace Decimal

/-- The digits of a coefficient without its final zeros, and how many those were. -/
def trimmed (n : Nat) : List Char × Nat :=
  let digits := decimalDigits n
  let kept := (digits.reverse.dropWhile (· == '0')).reverse
  (kept, digits.length - kept.length)

/-- Digits around a point that stands after the first `point` of them. -/
def positional (keepsPoint : Bool) (digits : List Char) (point : Int) : List Char :=
  if point ≤ 0 then '0' :: '.' :: (List.replicate (-point).toNat '0' ++ digits)
  else if digits.length ≤ point.toNat then
    digits ++ List.replicate (point.toNat - digits.length) '0' ++
      (if keepsPoint then ['.', '0'] else [])
  else digits.take point.toNat ++ '.' :: digits.drop point.toNat

/-- An exponent has a sign and at least two digits. -/
def exponentText (e : Int) : List Char :=
  let digits := decimalDigits e.natAbs
  'e' :: (if e < 0 then '-' else '+') :: (if digits.length < 2 then '0' :: digits else digits)

/-- One digit before the point, the others behind it, and the exponent. -/
def scientific (digits : List Char) (e : Int) : List Char :=
  match digits with
  | [] => []
  | d :: rest => d :: (if rest.isEmpty then [] else '.' :: rest) ++ exponentText e

/-- A positive numeral in a layout. -/
def layOut (layout : NumberLayout) (d : Decimal) : List Char :=
  let (digits, dropped) := trimmed d.coefficient
  let point := digits.length + d.exponent + dropped
  if point - 1 < layout.leastExponent || layout.exponentLimit ≤ point - 1 then
    scientific digits (point - 1)
  else positional layout.keepsPoint digits point

end Decimal

namespace Binary64

/-- A sign is written in front of negative numbers, negative zero among them. -/
def withSign (negative : Bool) (cs : List Char) : String :=
  String.ofList (if negative then '-' :: cs else cs)

/-- The shortest numeral that reads back as the number. -/
def text : Binary64 → String
  | .nan => "nan"
  | .infinite s => withSign s ['i', 'n', 'f']
  | .finite s n _ =>
    withSign s (if n = 0 then ['0', '.', '0'] else (shortest n).layOut .exact)

/-- The number rounded to one decimal place. -/
def onePlace : Binary64 → String
  | .nan => "nan"
  | .infinite s => withSign s ['i', 'n', 'f']
  | .finite s n _ =>
    let tenths := roundedTo n 1
    withSign s (decimalDigits (tenths / 10) ++ '.' :: decimalDigits (tenths % 10))

/-- The number rounded to six significant digits. -/
def brief : Binary64 → String
  | .nan => "nan"
  | .infinite s => withSign s ['i', 'n', 'f']
  | .finite s n _ =>
    withSign s (if n = 0 then ['0'] else (toSignificant n 6).layOut .brief)

end Binary64
end Bellows
