import Bellows.Binary64.Text
import Bellows.Text.Quoted
import Bellows.Value.Text

/-!
Values written as JSON. Everything outside printable ASCII is escaped, so the text is ASCII.
-/
namespace Bellows.Json

/-- A 16-bit unit as an escape. -/
def unitEscape (u : Nat) : List Char := '\\' :: 'u' :: hexDigits 4 u

/-- The units of a character beyond the first 16 bits. -/
def highUnit (n : Nat) : Nat := 0xd800 + (n - 0x10000) / 0x400

def lowUnit (n : Nat) : Nat := 0xdc00 + (n - 0x10000) % 0x400

/-- One character inside a text. -/
def escape (c : Char) : List Char :=
  if c = '"' then ['\\', '"']
  else if c = '\\' then ['\\', '\\']
  else if c = '\n' then ['\\', 'n']
  else if c = '\r' then ['\\', 'r']
  else if c = '\t' then ['\\', 't']
  else if c.toNat = 0x0c then ['\\', 'f']
  else if c.toNat = 0x08 then ['\\', 'b']
  else if 0x20 ≤ c.toNat && c.toNat ≤ 0x7e then [c]
  else if c.toNat < 0x10000 then unitEscape c.toNat
  else unitEscape (highUnit c.toNat) ++ unitEscape (lowUnit c.toNat)

def textChars (s : String) : List Char := '"' :: (s.toList.flatMap escape ++ ['"'])

/-- A number, with a name for each of the three that have no numeral. -/
def numberChars : Binary64 → List Char
  | .nan => "NaN".toList
  | .infinite false => "Infinity".toList
  | .infinite true => "-Infinity".toList
  | x => x.text.toList

/-- What stands between the parts of a list or map: all on one line, or each part on a line of its
own that is indented by so many blanks for each level. -/
structure Layout where
  indent : Option Nat

namespace Layout

/-- One line, or lines indented by `n` blanks; a negative number indents by none. -/
def ofIndent (indent : Option Int) : Layout := ⟨indent.map Int.toNat⟩

/-- The start of a new part at a depth. -/
def newline (l : Layout) (depth : Nat) : List Char :=
  match l.indent with
  | none => []
  | some n => '\n' :: List.replicate (n * depth) ' '

/-- Between two parts at a depth. -/
def comma (l : Layout) (depth : Nat) : List Char :=
  match l.indent with
  | none => [',', ' ']
  | some _ => ',' :: l.newline depth

/-- Parts between brackets; no parts stand on no line. -/
def enclose (l : Layout) (depth : Nat) (opening closing : Char) (parts : List (List Char)) :
    List Char :=
  if parts.isEmpty then [opening, closing]
  else opening :: (l.newline (depth + 1) ++ (l.comma (depth + 1)).intercalate parts
    ++ l.newline depth ++ [closing])

end Layout

mutual

/-- A value at a depth. Kinds that JSON lacks are written as texts. -/
def chars (l : Layout) (depth : Nat) : Value → List Char
  | .null => "null".toList
  | .bool true => "true".toList
  | .bool false => "false".toList
  | .int n => (toString n).toList
  | .float x => numberChars x
  | .text s => textChars s
  | .list items => l.enclose depth '[' ']' (itemChars l (depth + 1) items)
  | .map entries => l.enclose depth '\x7b' '\x7d' (entryChars l (depth + 1) entries)
  | .date d => textChars d.text
  | .moment m => textChars m.text
  | .bytes octets => textChars (Value.octetsText octets)
  | .set items | .tuple items => l.enclose depth '[' ']' (itemChars l (depth + 1) items)

def itemChars (l : Layout) (depth : Nat) : List Value → List (List Char)
  | [] => []
  | v :: vs => chars l depth v :: itemChars l depth vs

def entryChars (l : Layout) (depth : Nat) : List (Value × Value) → List (List Char)
  | [] => []
  | (k, v) :: rest => (textChars k.name ++ ':' :: ' ' :: chars l depth v) :: entryChars l depth rest

end

/-- A value as JSON text. -/
def render (indent : Option Int) (v : Value) : String :=
  String.ofList (chars (.ofIndent indent) 0 v)

end Bellows.Json
