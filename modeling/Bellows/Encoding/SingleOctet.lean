/-!
Encodings with one octet for each character: ASCII, Latin 1, and the one of Windows for Western
Europe.
-/
namespace Bellows.Encoding

/-- The characters of octets, where every octet has one. -/
def decodeEach (char? : UInt8 → Option Char) (octets : List UInt8) : Option String :=
  (octets.mapM char?).map String.ofList

/-- In Latin 1 each octet is the number of its character. -/
def latinChar? (b : UInt8) : Option Char := some (Char.ofNat b.toNat)

/-- ASCII has the first 128 characters. -/
def asciiChar? (b : UInt8) : Option Char := if b < 128 then some (Char.ofNat b.toNat) else none

/-- The characters from 0x80 to 0x9f on Windows; zero stands for none. -/
def windowsTable : List Nat := [
  0x20ac, 0, 0x201a, 0x0192, 0x201e, 0x2026, 0x2020, 0x2021,
  0x02c6, 0x2030, 0x0160, 0x2039, 0x0152, 0, 0x017d, 0,
  0, 0x2018, 0x2019, 0x201c, 0x201d, 0x2022, 0x2013, 0x2014,
  0x02dc, 0x2122, 0x0161, 0x203a, 0x0153, 0, 0x017e, 0x0178]

/-- On Windows the control characters of Latin 1 give way to others. -/
def windowsChar? (b : UInt8) : Option Char :=
  if b < 0x80 || 0xa0 ≤ b then some (Char.ofNat b.toNat)
  else
    match windowsTable.getD (b.toNat - 0x80) 0 with
    | 0 => none
    | n => some (Char.ofNat n)

end Bellows.Encoding
