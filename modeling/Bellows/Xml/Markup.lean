import Bellows.Xml.Name

/-!
A document cut into its items: tags, character data, and references to entities. Comments and
processing instructions are no items.
-/
namespace Bellows.Xml

/-- A piece of text: a character, or the name of an entity that stands for text. -/
inductive Piece
  | char (c : Char)
  | entity (name : String)
  deriving DecidableEq, Repr

inductive Item
  /-- Characters as they stand. -/
  | text (cs : List Char)
  /-- Characters from a section of character data or from a reference. -/
  | data (cs : List Char)
  | entity (name : String)
  | opening (name : Name) (attributes : List (Name × List Piece)) (closed : Bool)
  | closing (name : Name)
  deriving Repr

/-- The entities that every document has. -/
def standardEntities : List (String × Char) :=
  [("lt", '<'), ("gt", '>'), ("amp", '&'), ("quot", '"'), ("apos", '\'')]

def digitIn? (base : Nat) (c : Char) : Option Nat :=
  let n := c.toNat
  let d :=
    if 48 ≤ n && n ≤ 57 then n - 48
    else if 97 ≤ n && n ≤ 102 then n - 87
    else if 65 ≤ n && n ≤ 70 then n - 55
    else 16
  if d < base then some d else none

/-- The number of some digits; from the end of all characters on it grows no further. -/
def numberIn? (base : Nat) (cs : List Char) : Option Nat :=
  if cs.isEmpty then none
  else cs.foldlM (fun n c => (digitIn? base c).map fun d => min (n * base + d) 0x110000) 0

/-- The character with a number, if a document may hold it. -/
def charOf? (n : Nat) : Option Char :=
  if n.isValidChar && isXmlChar (Char.ofNat n) then some (Char.ofNat n) else none

/-- A reference after its ampersand. -/
def readReference : Reader Piece := fun cs =>
  match cs with
  | '#' :: cs => do
    let (body, rest) ← splitAt? [';'] cs
    let n ← match body with
      | 'x' :: digits => numberIn? 16 digits
      | digits => numberIn? 10 digits
    let c ← charOf? n
    some (.char c, rest)
  | cs => do
    let (name, rest) ← readName cs
    let rest ← after? ";" rest
    match standardEntities.lookup name with
    | some c => some (.char c, rest)
    | none => some (.entity name, rest)

/-- The pieces of an attribute value: every space is a blank, and no tag begins. -/
def valuePieces : Nat → List Char → Option (List Piece)
  | 0, _ => none
  | fuel + 1, cs => match cs with
    | [] => some []
    | '&' :: cs => do
      let (piece, rest) ← readReference cs
      let more ← valuePieces fuel rest
      some (piece :: more)
    | c :: cs =>
      if c = '<' then none
      else (valuePieces fuel cs).map (.char (if isSpace c then ' ' else c) :: ·)

/-- Text between quotation marks. -/
def readQuoted : Reader (List Char)
  | [] => none
  | q :: cs => if q = '"' || q = '\'' then splitAt? [q] cs else none

/-- An attribute: a name, an equals sign, and a value between quotation marks. -/
def readAttribute : Reader (Name × List Piece) := fun cs => do
  let (name, rest) ← readQualified cs
  let rest ← after? "=" (rest.dropWhile isSpace)
  let (raw, rest) ← readQuoted (rest.dropWhile isSpace)
  let value ← valuePieces (raw.length + 1) raw
  some ((name, value), rest)

/-- The attributes of a tag up to its end, each behind a space. -/
def readAttributes : Nat → Reader (List (Name × List Piece) × Bool)
  | 0, _ => none
  | fuel + 1, cs =>
    match cs.dropWhile isSpace with
    | '>' :: rest => some (([], false), rest)
    | '/' :: '>' :: rest => some (([], true), rest)
    | _ => do
      let rest ← skipSpace cs
      let (first, rest) ← readAttribute rest
      let ((more, closed), rest) ← readAttributes fuel rest
      some ((first :: more, closed), rest)

/-- A tag after its bracket; the number bounds how many attributes it has. -/
def readTag (bound : Nat) : Reader Item := fun cs =>
  match cs with
  | '/' :: cs => do
    let (name, rest) ← readQualified cs
    let rest ← after? ">" (rest.dropWhile isSpace)
    some (.closing name, rest)
  | cs => do
    let (name, rest) ← readQualified cs
    let ((attributes, closed), rest) ← readAttributes bound rest
    some (.opening name attributes closed, rest)

/-- What follows a comment, after its opening; two hyphens only stand at its end. -/
def skipComment (cs : List Char) : Option (List Char) := do
  let (_, rest) ← splitAt? ['-', '-'] cs
  after? ">" rest

/-- What follows a processing instruction, after its opening. The name of the XML declaration is
reserved in any case. -/
def skipInstruction (cs : List Char) : Option (List Char) := do
  let (name, rest) ← readName cs
  if name.toLower = "xml" then none
  else match after? "?>" rest with
    | some rest => some rest
    | none => do
      let rest ← skipSpace rest
      let (_, rest) ← splitAt? ['?', '>'] rest
      some rest

/-- Characters up to the next tag or reference. -/
def readPlain (cs : List Char) : List Char × List Char := cs.span fun c => c ≠ '<' && c ≠ '&'

/-- Whether the end of a section of character data stands in some text. -/
def holdsSectionEnd (cs : List Char) : Bool := (splitAt? [']', ']', '>'] cs).isSome

/-- The item at the front, or no item for a comment or an instruction; the number bounds its
length. -/
def readItem (bound : Nat) : Reader (Option Item) := fun cs =>
  match cs with
  | [] => none
  | '<' :: '!' :: rest =>
    match after? "--" rest, after? "[CDATA[" rest with
    | some rest, _ => (skipComment rest).map (none, ·)
    | none, some rest => do
      let (cs, rest) ← splitAt? [']', ']', '>'] rest
      some (some (.data cs), rest)
    | none, none => none
  | '<' :: '?' :: rest => (skipInstruction rest).map (none, ·)
  | '<' :: rest => (readTag bound rest).map fun (item, rest) => (some item, rest)
  | '&' :: rest => do
    let (piece, rest) ← readReference rest
    match piece with
    | .char c => some (some (.data [c]), rest)
    | .entity name => some (some (.entity name), rest)
  | cs =>
    let (plain, rest) := readPlain cs
    if holdsSectionEnd plain then none else some (some (.text plain), rest)

/-- All items of a text, in front of which stand those that were read, the last one first. -/
def itemsFrom : Nat → List Item → List Char → Option (List Item)
  | 0, _, _ => none
  | fuel + 1, acc, cs =>
    if cs.isEmpty then some acc.reverse
    else do
      let (item, rest) ← readItem fuel cs
      match item with
      | some item => itemsFrom fuel (item :: acc) rest
      | none => itemsFrom fuel acc rest

/-- The items of a text. -/
def items (cs : List Char) : Option (List Item) := itemsFrom (cs.length + 1) [] cs

end Bellows.Xml
