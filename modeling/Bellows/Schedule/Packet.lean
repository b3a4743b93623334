import Bellows.Command.Basic
import Bellows.Text.Quoted

/-!
Commands as packets of three octets: the sign of the action, the mask of the open ports, and the
strength.
-/
namespace Bellows

/-- Whether a number fits into one octet. -/
def fitsOctet (n : Int) : Bool := 0 ≤ n && n ≤ 255

/-- The packet of a command, unless its mask or its strength does not fit into an octet. -/
def Command.packet? (c : Command) : Option (List UInt8) :=
  if fitsOctet c.portsByte && fitsOctet c.intensity then
    some [c.action.opcode.toNat.toUInt8, c.portsByte.toUInt8, c.intensity.toNat.toUInt8]
  else none

/-- The message for a command without a packet. -/
def noPacketMessage : String := "bytes must be in range(0, 256)"

/-- A mask with bits for other ports than the five of a device. -/
structure MaskFault where
  mask : Int
  deriving DecidableEq, Repr

/-- The valves of the five ports in a mask. -/
def valvesOfByte (mask : Int) : Except MaskFault (List Valve) :=
  if 0 ≤ mask ∧ mask ≤ 0x1f then .ok (valvesOfMask mask.toNat 5) else .error ⟨mask⟩

/-- A number in hexadecimal digits, its sign in front of the base. -/
def hexText (n : Int) : String :=
  let digits := String.ofList (hexDigits 1 n.natAbs)
  if n < 0 then s!"-0x{digits}" else s!"0x{digits}"

def MaskFault.message (f : MaskFault) : String :=
  s!"ports byte must be 0x00-0x1F, got {hexText f.mask}"

end Bellows
