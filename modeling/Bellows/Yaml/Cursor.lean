/-!
A place in the text of a document, and the classes of characters that a document is made of.
-/
namespace Bellows.Yaml

/-- Line ends, one character each. -/
def isBreak (c : Char) : Bool :=
  c = '\n' || c = '\r' || c.toNat = 0x85 || c.toNat = 0x2028 || c.toNat = 0x2029

def isBlank (c : Char) : Bool := c = ' ' || c = '\t'

/-- Whether a place is at the end of the text or in front of a blank or a line end. -/
def isGap : Option Char → Bool
  | none => true
  | some c => isBlank c || isBreak c

/-- Whether a place is at the end of the text or in front of a space or a line end. -/
def isWideGap : Option Char → Bool
  | none => true
  | some c => c = ' ' || isBreak c

/-- The characters of names of anchors and of directives. -/
def isWordChar (c : Char) : Bool := c.isAlphanum || c = '-' || c = '_'

/-- The characters that a document may hold. -/
def isAllowed (c : Char) : Bool :=
  let n := c.toNat
  n = 9 || n = 10 || n = 13 || (0x20 ≤ n && n ≤ 0x7e) || n = 0x85 || (0xa0 ≤ n && n ≤ 0xd7ff)
    || (0xe000 ≤ n && n ≤ 0xfffd) || 0x10000 ≤ n

/-- The mark of byte order takes no place in its line. -/
def isOrderMark (c : Char) : Bool := c.toNat = 0xfeff

/-- The rest of a text, with the number of characters in front of it, of lines, and of characters
in its line. -/
structure Cursor where
  rest : List Char
  index : Nat
  line : Nat
  column : Nat

namespace Cursor

/-- The start of a text. -/
def start (cs : List Char) : Cursor := ⟨cs, 0, 0, 0⟩

def peek (c : Cursor) : Option Char := c.rest.head?

/-- The character that stands so many places ahead. -/
def peekAt (c : Cursor) (n : Nat) : Option Char := c.rest[n]?

/-- One character further. -/
def next (c : Cursor) : Cursor :=
  match c.rest with
  | [] => c
  | ch :: rest =>
    if isBreak ch then ⟨rest, c.index + 1, c.line + 1, 0⟩
    else ⟨rest, c.index + 1, c.line, if isOrderMark ch then c.column else c.column + 1⟩

/-- Some characters further. -/
def skip (c : Cursor) (n : Nat) : Cursor := (c.rest.take n).foldl (fun c _ => c.next) c

/-- The characters of a class, and the place behind them. -/
def span (c : Cursor) (p : Char → Bool) : List Char × Cursor :=
  let taken := c.rest.takeWhile p
  (taken, taken.foldl (fun c _ => c.next) c)

/-- The place behind the characters of a class. -/
def skipWhile (c : Cursor) (p : Char → Bool) : Cursor := (c.span p).2

/-- The line end at a place, as it counts in a text, and the start of the next line. Separators of
lines and paragraphs stay what they are. -/
def lineBreak? (c : Cursor) : Option (Char × Cursor) :=
  match c.rest with
  | ch :: _ => if isBreak ch then some (if ch.toNat < 0x2000 then '\n' else ch, c.next) else none
  | [] => none

/-- Whether three of a character stand at a place, with a gap behind them. -/
def atMarker (c : Cursor) (ch : Char) : Bool :=
  c.peek = some ch && c.peekAt 1 = some ch && c.peekAt 2 = some ch && isGap (c.peekAt 3)

/-- Whether a document begins or ends at the start of a line. -/
def atDocumentMarker (c : Cursor) : Bool := c.atMarker '-' || c.atMarker '.'

/-- The place behind a comment, if there is one. -/
def skipComment (c : Cursor) : Cursor :=
  if c.peek = some '#' then c.skipWhile fun ch => !isBreak ch else c

/-- The next line, if nothing but spaces and a comment stand in the way. -/
def skipLine? (c : Cursor) : Option Cursor :=
  let c := (c.skipWhile (· = ' ')).skipComment
  match c.lineBreak?, c.peek with
  | some (_, c), _ => some c
  | none, none => some c
  | none, some _ => none

end Cursor

/-- Why a text is no document, or a document no value. -/
inductive Fault
  | malformed
  /-- The number of an escaped character is too large. -/
  | noCharacter
  /-- The number of an escaped character is not even a number of 32 bits with a sign. -/
  | hugeCharacter
  /-- An escape stands for half of a surrogate pair, which is no character. -/
  | halfPair
  | notWhole (base : Nat) (text : String)
  | hugeInteger (digits : Nat)
  | notDecimal (text : String)
  | notLogical (text : String)
  | emptyNumber
  /-- A number in base sixty has too many parts. -/
  | hugeStep
  | notTimestamp
  /-- A mapping stands for a timestamp. -/
  | mappedTimestamp
  | badDate (reason : String)
  deriving DecidableEq, Repr

end Bellows.Yaml
