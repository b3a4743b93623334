import Bellows.Binary64.Text
import Bellows.Text.Numeral
import Bellows.Text.Quoted
import Bellows.Value.Basic

/-!
How values are written in messages.
-/
namespace Bellows
namespace Value

/-- One octet between quotation marks. -/
def octetText (mark : Char) (b : UInt8) : List Char :=
  let c := Char.ofNat b.toNat
  if c = mark || c = '\\' then ['\\', c]
  else if c = '\n' then ['\\', 'n']
  else if c = '\r' then ['\\', 'r']
  else if c = '\t' then ['\\', 't']
  else if 0x20 ≤ b.toNat && b.toNat < 0x7f then [c]
  else '\\' :: 'x' :: hexDigits 2 b.toNat

/-- Octets between quotation marks after the letter `b`. -/
def octetsText (octets : List UInt8) : String :=
  let mark := Quoted.mark (octets.map fun b => Char.ofNat b.toNat)
  String.ofList ('b' :: mark :: (octets.flatMap (octetText mark) ++ [mark]))

def commaSeparated (items : List String) : String := String.intercalate ", " items

mutual

/-- A value as messages quote it. -/
def quoted : Value → String
  | .null => "None"
  | .bool true => "True"
  | .bool false => "False"
  | .int n => toString n
  | .float x => x.text
  | .text s => Bellows.quoted s
  | .list items => "[" ++ commaSeparated (quotedItems items) ++ "]"
  | .map entries => "\x7b" ++ commaSeparated (quotedEntries entries) ++ "\x7d"
  | .date d => d.quoted
  | .moment m => m.quoted
  | .bytes octets => octetsText octets
  | .set items =>
    if items.isEmpty then "set()" else "\x7b" ++ commaSeparated (quotedItems items) ++ "\x7d"
  | .tuple [item] => "(" ++ quoted item ++ ",)"
  | .tuple items => "(" ++ commaSeparated (quotedItems items) ++ ")"

def quotedItems : List Value → List String
  | [] => []
  | v :: vs => quoted v :: quotedItems vs

def quotedEntries : List (Value × Value) → List String
  | [] => []
  | (k, v) :: rest => (quoted k ++ ": " ++ quoted v) :: quotedEntries rest

end

/-- A value as a name: texts and dates without marks, everything else as it is quoted. -/
def name : Value → String
  | .text s => s
  | .date d => d.text
  | .moment m => m.text
  | v => v.quoted

/-- Numbers with more digits than the limit are not written. -/
def longest : Nat := Nat.pow 10 digitLimit

mutual

/-- Whether a value holds a whole number that is too long to be written. -/
def isTooLong : Value → Bool
  | .int n => longest ≤ n.natAbs
  | .list items | .set items | .tuple items => anyTooLong items
  | .map entries => anyEntryTooLong entries
  | _ => false

def anyTooLong : List Value → Bool
  | [] => false
  | v :: vs => isTooLong v || anyTooLong vs

def anyEntryTooLong : List (Value × Value) → Bool
  | [] => false
  | (k, v) :: rest => isTooLong k || isTooLong v || anyEntryTooLong rest

end

/-- The message for a value that is too long to be written. -/
def tooLongMessage : String :=
  s!"Exceeds the limit ({digitLimit} digits) for integer string conversion; " ++
    "use sys.set_int_max_str_digits() to increase the limit"

/-- A message about a value, where the value can be written. -/
def about (v : Value) (message : String) : String := if v.isTooLong then tooLongMessage else message

end Value
end Bellows
