/-!
The encodings of Unicode: octets as UTF-8, and pairs of octets as units of UTF-16 in either order.
-/
namespace Bellows.Encoding

/-- The text that octets encode in UTF-8. -/
def decodeUtf8 (octets : List UInt8) : Option String := String.fromUTF8? ⟨octets.toArray⟩

/-- Units of two octets, the more significant one first or second. -/
def pairs (bigEndian : Bool) : List UInt8 → Option (List Nat)
  | [] => some []
  | [_] => none
  | a :: b :: rest =>
    let unit := if bigEndian then a.toNat * 256 + b.toNat else b.toNat * 256 + a.toNat
    (pairs bigEndian rest).map (unit :: ·)

def isHigh (u : Nat) : Bool := 0xd800 ≤ u && u < 0xdc00

def isLow (u : Nat) : Bool := 0xdc00 ≤ u && u < 0xe000

/-- The character of a pair of units. -/
def joined (high low : Nat) : Char :=
  Char.ofNat (0x10000 + (high - 0xd800) * 0x400 + (low - 0xdc00))

/-- The characters of units; half a pair alone is no character. -/
def decodeUnits : List Nat → Option (List Char)
  | [] => some []
  | [u] => if isHigh u || isLow u then none else some [Char.ofNat u]
  | u :: v :: rest =>
    if isHigh u then
      if isLow v then (decodeUnits rest).map (joined u v :: ·) else none
    else if isLow u then none
    else (decodeUnits (v :: rest)).map (Char.ofNat u :: ·)

/-- The text that octets encode in UTF-16 in an order. -/
def decodeUtf16 (bigEndian : Bool) (octets : List UInt8) : Option String := do
  let units ← pairs bigEndian octets
  let cs ← decodeUnits units
  some (String.ofList cs)

/-- The message for octets that are no UTF-8. -/
def notUtf8Message : String := "<codec>"

end Bellows.Encoding
