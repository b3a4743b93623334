import Bellows.Text.Printable

/-!
Texts as messages quote them: between quotation marks, with everything that cannot be shown
written as an escape. A text that holds an apostrophe and no double mark stands in double marks.
-/
namespace Bellows

/-- The last `width` hexadecimal digits of a number. -/
def hexDigits (width n : Nat) : List Char :=
  let digits := Nat.toDigits 16 n
  List.replicate (width - digits.length) '0' ++ digits

namespace Quoted

/-- The mark around a text. -/
def mark (cs : List Char) : Char := if cs.contains '\'' && !cs.contains '"' then '"' else '\''

/-- One character between marks. -/
def escape (mark c : Char) : List Char :=
  if c = mark || c = '\\' then ['\\', c]
  else if c = '\n' then ['\\', 'n']
  else if c = '\r' then ['\\', 'r']
  else if c = '\t' then ['\\', 't']
  else if isPrintable c then [c]
  else if c.toNat ≤ 0xff then '\\' :: 'x' :: hexDigits 2 c.toNat
  else if c.toNat ≤ 0xffff then '\\' :: 'u' :: hexDigits 4 c.toNat
  else '\\' :: 'U' :: hexDigits 8 c.toNat

end Quoted

/-- A text between its marks. -/
def quoted (s : String) : String :=
  let cs := s.toList
  let mark := Quoted.mark cs
  String.ofList (mark :: (cs.flatMap (Quoted.escape mark) ++ [mark]))

end Bellows
