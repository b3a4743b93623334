import Bellows.Binary64.Decimal
import Bellows.Text.Classes

/-!
Numbers read from text: whole numbers with an optional sign and single underscores between digits,
and decimal numbers with a fraction and an exponent. Digits may come from any script, and blanks
may stand around the number.
-/
namespace Bellows

/-- Why a text is no whole number. -/
inductive IntegerFault
  | malformed
  | tooLong (digits : Nat)
  deriving DecidableEq, Repr

/-- Whole numbers of more digits are refused. -/
def digitLimit : Nat := 4300

namespace Numeral

/-- Blanks around numbers do not include the information separators. -/
def surrounds (c : Char) : Bool := isBlank c && !(28 ≤ c.toNat && c.toNat ≤ 31)

/-- A digit of any script as the digit of the same value that ASCII has. -/
def plain (c : Char) : Char :=
  match digitValue? c with
  | some d => Char.ofNat (48 + d)
  | none => c

/-- The value of a digit. -/
def digitOf (c : Char) : Nat := c.toNat - 48

/-- The value of a run of digits. -/
def digitsValue (cs : List Char) : Nat := cs.foldl (fun n c => 10 * n + digitOf c) 0

/-- A text as a number is read from it. -/
def prepare (s : String) : List Char := (stripEnds surrounds s.toList).map plain

/-- A leading sign, and what follows it. -/
def splitSign : List Char → Bool × List Char
  | '-' :: cs => (true, cs)
  | '+' :: cs => (false, cs)
  | cs => (false, cs)

/-- The digits of a run in which single underscores may separate digits. -/
def ungroup : List Char → Option (List Char)
  | [] => none
  | [c] => if c.isDigit then some [c] else none
  | c :: '_' :: cs => if c.isDigit then (ungroup cs).map (c :: ·) else none
  | c :: cs => if c.isDigit then (ungroup cs).map (c :: ·) else none

/-- Underscores dropped from a text where each stands between two digits. -/
def dropUnderscores : List Char → Option (List Char)
  | [] => some []
  | '_' :: _ => none
  | c :: '_' :: d :: cs =>
    if c.isDigit && d.isDigit then (dropUnderscores (d :: cs)).map (c :: ·) else none
  | c :: cs => (dropUnderscores cs).map (c :: ·)

/-- Whether `cs` is a word, letters of either case taken as equal. -/
def isWord (word : String) (cs : List Char) : Bool := cs.map Char.toLower = word.toList

/-- Digits, an optional fraction and an optional exponent, at least one digit before the
exponent. -/
def readDecimal (cs : List Char) : Option Decimal :=
  let (whole, rest) := cs.span Char.isDigit
  let (fraction, rest) := match rest with
    | '.' :: rest => rest.span Char.isDigit
    | rest => ([], rest)
  if whole.isEmpty && fraction.isEmpty then none
  else
    let coefficient := digitsValue (whole ++ fraction)
    match rest with
    | [] => some ⟨coefficient, -fraction.length⟩
    | e :: rest =>
      let (negative, digits) := splitSign rest
      if (e = 'e' || e = 'E') && !digits.isEmpty && digits.all Char.isDigit then
        let exponent : Int := digitsValue digits
        some ⟨coefficient, (if negative then -exponent else exponent) - fraction.length⟩
      else none

end Numeral

/-- A whole number in decimal digits. -/
def readInteger (s : String) : Except IntegerFault Int :=
  let (negative, cs) := Numeral.splitSign (Numeral.prepare s)
  match Numeral.ungroup cs with
  | none => .error .malformed
  | some digits =>
    if digitLimit < digits.length then .error (.tooLong digits.length)
    else
      let n : Int := Numeral.digitsValue digits
      .ok (if negative then -n else n)

/-- A decimal number, an infinity, or `nan`. -/
def readBinary64 (s : String) : Option Binary64 := do
  let cs ← Numeral.dropUnderscores (Numeral.prepare s)
  let (negative, cs) := Numeral.splitSign cs
  if Numeral.isWord "inf" cs || Numeral.isWord "infinity" cs then some (.infinite negative)
  else if Numeral.isWord "nan" cs then some .nan
  else (Numeral.readDecimal cs).map (·.toBinary64 negative)

end Bellows
