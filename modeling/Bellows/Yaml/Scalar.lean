import Bellows.Yaml.Cursor

/-!
Scalars: texts that stand plainly, between quotation marks, or as blocks of indented lines. A line
end inside of a text counts as a space, and each empty line as a line end.
-/
namespace Bellows.Yaml

/-- Line ends that follow another one, with the blanks between them left out. -/
def quotedBreaks : Nat → Cursor → Except Fault (List Char × Cursor)
  | 0, _ => .error .malformed
  | fuel + 1, c =>
    if c.atDocumentMarker then .error .malformed
    else
      let c := c.skipWhile isBlank
      match c.lineBreak? with
      | none => .ok ([], c)
      | some (ch, c) => do
        let (more, c) ← quotedBreaks fuel c
        .ok (ch :: more, c)

/-- What a line end and the further ones behind it count as. -/
def folded (first : Char) (breaks : List Char) : List Char :=
  if first ≠ '\n' then first :: breaks
  else if breaks.isEmpty then [' '] else breaks

/-- Blanks and line ends between words of a quoted text. -/
def quotedSpaces (c : Cursor) : Except Fault (List Char × Cursor) :=
  let (blanks, c) := c.span isBlank
  match c.lineBreak?, c.peek with
  | some (ch, c), _ => do
    let (breaks, c) ← quotedBreaks (c.rest.length + 1) c
    .ok (folded ch breaks, c)
  | none, none => .error .malformed
  | none, some _ => .ok (blanks, c)

/-- The characters that escapes of one letter stand for. -/
def escapes : List (Char × Nat) :=
  [('0', 0), ('a', 7), ('b', 8), ('t', 9), ('\t', 9), ('n', 10), ('v', 11), ('f', 12), ('r', 13),
   ('e', 27), (' ', 32), ('"', 34), ('\\', 92), ('/', 47), ('N', 0x85), ('_', 0xa0), ('L', 0x2028),
   ('P', 0x2029)]

/-- The letters of escapes with numbers, and how many digits follow them. -/
def numberedEscapes : List (Char × Nat) := [('x', 2), ('u', 4), ('U', 8)]

def hexDigit? (c : Char) : Option Nat :=
  let n := c.toNat
  if 48 ≤ n && n ≤ 57 then some (n - 48)
  else if 65 ≤ n && n ≤ 70 then some (n - 55)
  else if 97 ≤ n && n ≤ 102 then some (n - 87)
  else none

/-- The number of so many hexadecimal digits at a place. -/
def hexNumber? (c : Cursor) (digits : Nat) : Option Nat :=
  let taken := c.rest.take digits
  if taken.length < digits then none
  else taken.foldlM (fun n ch => (hexDigit? ch).map (16 * n + ·)) 0

/-- The character of a number. -/
def escapedChar (n : Nat) : Except Fault Char :=
  if 0x7fffffff < n then .error .hugeCharacter
  else if 0x10ffff < n then .error .noCharacter
  else if 0xd800 ≤ n && n < 0xe000 then .error .halfPair
  else .ok (Char.ofNat n)

/-- An escape behind its backslash. An escaped line end counts as nothing. -/
def readEscape (c : Cursor) : Except Fault (List Char × Cursor) :=
  match c.peek with
  | none => .error .malformed
  | some ch =>
    match escapes.lookup ch, numberedEscapes.lookup ch, c.lineBreak? with
    | some n, _, _ => .ok ([Char.ofNat n], c.next)
    | none, some digits, _ =>
      match hexNumber? c.next digits with
      | none => .error .malformed
      | some n => (escapedChar n).map fun ch => ([ch], c.next.skip digits)
    | none, none, some (_, c) => quotedBreaks (c.rest.length + 1) c
    | none, none, none => .error .malformed

/-- A quoted text behind its first mark; `acc` holds what was read, the last character first. Only
in double marks there are escapes; in single ones the mark itself is written twice. -/
def readQuoted (double : Bool) : Nat → List Char → Cursor → Except Fault (String × Cursor)
  | 0, _, _ => .error .malformed
  | fuel + 1, acc, c =>
    match c.peek with
    | none => .error .malformed
    | some ch =>
      if ch = '"' && double then .ok (String.ofList acc.reverse, c.next)
      else if ch = '\'' && !double then
        if c.peekAt 1 = some '\'' then readQuoted double fuel ('\'' :: acc) (c.skip 2)
        else .ok (String.ofList acc.reverse, c.next)
      else if ch = '\\' && double then do
        let (cs, c) ← readEscape c.next
        readQuoted double fuel (cs.reverse ++ acc) c
      else if isBlank ch || isBreak ch then do
        let (cs, c) ← quotedSpaces c
        readQuoted double fuel (cs.reverse ++ acc) c
      else readQuoted double fuel (ch :: acc) c.next

/-- The characters that end a plain text between brackets. -/
def isFlowEnd (c : Char) : Bool :=
  c = ',' || c = '?' || c = '[' || c = ']' || c = '\x7b' || c = '\x7d'

/-- Whether a colon followed by this ends a plain text. -/
def endsKey (flow : Bool) (c : Option Char) : Bool :=
  isGap c ||
    (flow && (c = some ',' || c = some '[' || c = some ']' || c = some '\x7b' || c = some '\x7d'))

/-- The characters of a plain text up to a gap, a colon in front of one, or a bracket. -/
def plainWord (flow : Bool) : List Char → List Char
  | [] => []
  | c :: cs =>
    if isBlank c || isBreak c || (c = ':' && endsKey flow cs.head?) || (flow && isFlowEnd c) then []
    else c :: plainWord flow cs

/-- Line ends in a plain text that follow another one; `none` where a document ends. -/
def plainBreaks : Nat → Cursor → Option (List Char) × Cursor
  | 0, c => (some [], c)
  | fuel + 1, c =>
    if c.atDocumentMarker then (none, c)
    else
      let c' := c.skipWhile (· = ' ')
      match c'.lineBreak? with
      | none => (some [], c')
      | some (ch, c') =>
        let (more, c') := plainBreaks fuel c'
        (more.map (ch :: ·), c')

/-- What stands between two words of a plain text, and whether it held a line end. -/
def plainSpaces (c : Cursor) : List Char × Bool × Cursor :=
  let (spaces, c) := c.span (· = ' ')
  match c.lineBreak? with
  | none => (spaces, false, c)
  | some (ch, c) =>
    let (breaks, c) := plainBreaks (c.rest.length + 1) c
    ((breaks.map (folded ch)).getD [], true, c)

/-- A plain text from a word on, the words before it in `acc`, the last character first; whether it
ends with a line end. The lines of a text outside of brackets are indented. -/
def readPlain (flow : Bool) (indent : Nat) : Nat → List Char → List Char → Bool → Cursor →
    String × Bool × Cursor
  | 0, acc, _, fresh, c => (String.ofList acc.reverse, fresh, c)
  | fuel + 1, acc, spaces, fresh, c =>
    let word := plainWord flow c.rest
    if c.peek = some '#' || word.isEmpty then (String.ofList acc.reverse, fresh, c)
    else
      let acc := word.reverse ++ (spaces.reverse ++ acc)
      let (spaces, fresh, c) := plainSpaces (c.skip word.length)
      if spaces.isEmpty || c.peek = some '#' || (!flow && c.column < indent) then
        (String.ofList acc.reverse, fresh, c)
      else readPlain flow indent fuel acc spaces fresh c

/-- What happens to the line ends at the end of a block: all go, one stays, or all stay. -/
inductive Chomping
  | strip
  | clip
  | keep
  deriving DecidableEq, Repr

def Chomping.ofSign? : Option Char → Option Chomping
  | some '+' => some .keep
  | some '-' => some .strip
  | _ => none

/-- The depth of a block that is stated; it is not zero. -/
def statedDepth? (c : Option Char) : Option Nat :=
  (c.filter Char.isDigit).map fun ch => ch.toNat - 48

/-- The head of a block: what happens to its last line ends, and its depth, in either order. -/
def blockHead (c : Cursor) : Except Fault (Chomping × Option Nat × Cursor) := do
  let (chomping, depth, c) := match Chomping.ofSign? c.peek, statedDepth? c.peek with
    | some chomping, _ => match statedDepth? c.next.peek with
      | some depth => (chomping, some depth, c.next.next)
      | none => (chomping, none, c.next)
    | none, some depth => match Chomping.ofSign? c.next.peek with
      | some chomping => (chomping, some depth, c.next.next)
      | none => (.clip, some depth, c.next)
    | none, none => (.clip, none, c)
  if depth = some 0 || !isWideGap c.peek then .error .malformed
  else match c.skipLine? with
    | some c => .ok (chomping, depth, c)
    | none => .error .malformed

/-- The empty lines at the start of a block, and the deepest column that they reach. -/
def leadingLines : Nat → Nat → Cursor → List Char × Nat × Cursor
  | 0, deepest, c => ([], deepest, c)
  | fuel + 1, deepest, c =>
    let c := c.skipWhile (· = ' ')
    let deepest := max deepest c.column
    match c.lineBreak? with
    | none => ([], deepest, c)
    | some (ch, c) =>
      let (more, deepest, c) := leadingLines fuel deepest c
      (ch :: more, deepest, c)

/-- The place in a line behind its indentation, which is at most so deep. -/
def skipIndent (depth : Nat) (c : Cursor) : Cursor :=
  c.skip ((c.rest.take (depth - c.column)).takeWhile (· = ' ')).length

/-- The empty lines in front of the next line of a block. -/
def emptyLines (depth : Nat) : Nat → Cursor → List Char × Cursor
  | 0, c => ([], c)
  | fuel + 1, c =>
    let c := skipIndent depth c
    match c.lineBreak? with
    | none => ([], c)
    | some (ch, c) =>
      let (more, c) := emptyLines depth fuel c
      (ch :: more, c)

/-- Whether a line of a block begins at a place. -/
def atBlockLine (depth : Nat) (c : Cursor) : Bool := c.column = depth && c.peek.isSome

/-- The lines of a block from one on: their text, and the line ends behind it, of which the first
one ends the last line. In a folded block, a single line end between two lines that are not
indented further counts as a space. -/
def blockLines (folding : Bool) (depth : Nat) :
    Nat → Cursor → List Char × List Char × List Char × Cursor
  | 0, c => ([], [], [], c)
  | fuel + 1, c =>
    let flush := !(c.peek.any isBlank)
    let (line, c) := c.span fun ch => !isBreak ch
    let (ending, c) := match c.lineBreak? with
      | some (ch, c) => ([ch], c)
      | none => ([], c)
    let (breaks, c) := emptyLines depth (c.rest.length + 1) c
    if atBlockLine depth c then
      let between :=
        if folding && ending = ['\n'] && flush && !(c.peek.any isBlank) then
          if breaks.isEmpty then [' '] else []
        else ending
      let (more, last, tail, c) := blockLines folding depth fuel c
      (line ++ between ++ breaks ++ more, last, tail, c)
    else (line, ending, breaks, c)

/-- A block behind its sign; it is deeper than the block around it. -/
def readBlock (folding : Bool) (indent : Int) (c : Cursor) : Except Fault (String × Cursor) := do
  let (chomping, stated, c) ← blockHead c
  let least := max (indent + 1).toNat 1
  let (breaks, depth, c) := match stated with
    | some n =>
      let depth := least + n - 1
      let (breaks, c) := emptyLines depth (c.rest.length + 1) c
      (breaks, depth, c)
    | none =>
      let (breaks, deepest, c) := leadingLines (c.rest.length + 1) 0 c
      (breaks, max least deepest, c)
  let (text, last, tail, c) :=
    if atBlockLine depth c then
      let (text, last, tail, c) := blockLines folding depth (c.rest.length + 1) c
      (breaks ++ text, last, tail, c)
    else ([], [], breaks, c)
  let ending := match chomping with
    | .strip => []
    | .clip => last
    | .keep => last ++ tail
  .ok (String.ofList (text ++ ending), c)

end Bellows.Yaml
