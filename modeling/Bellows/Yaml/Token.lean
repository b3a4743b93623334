import Bellows.Yaml.Scalar

/-!
A document cut into tokens. Indentation opens and closes blocks, and a text in front of a colon
turns out to be a key only when the colon is reached, so a token may be put in front of an earlier
one.
-/
namespace Bellows.Yaml

/-- The tag of a node as it is written: a handle that is declared elsewhere, and what follows it. -/
structure WrittenTag where
  handle : Option String
  suffix : String
  deriving DecidableEq, Repr

inductive Token
  | version (major : Nat)
  | handle (handle uri : String)
  | directive
  | documentStart
  | documentEnd
  | sequenceStart
  | mappingStart
  | blockEnd
  | openBracket
  | closeBracket
  | openBrace
  | closeBrace
  | key
  | value
  | entry
  | comma
  | anchor (name : String)
  | alias (name : String)
  | tag (tag : WrittenTag)
  | scalar (text : String) (plain : Bool)
  deriving DecidableEq, Repr

/-- A token that may turn out to begin a key: its number among all tokens, whether it has to, and
where it stands. -/
structure Candidate where
  slot : Nat
  required : Bool
  index : Nat
  line : Nat
  column : Nat

/-- What is known while tokens are read. In front of each token stand those that were put there
later. -/
structure Scanner where
  cursor : Cursor
  tokens : Array (List Token)
  /-- How many brackets and braces are open. -/
  flow : Nat
  /-- The column of the innermost block, and those of the blocks around it. -/
  indent : Int
  indents : List Int
  /-- Whether a key may begin here. -/
  fresh : Bool
  /-- For each depth of brackets the token that may turn out to begin a key. -/
  candidates : List (Nat × Candidate)

namespace Scanner

abbrev Step := Except Fault Scanner

def start (cs : List Char) : Scanner :=
  let c := Cursor.start cs
  ⟨if cs.head?.any isOrderMark then c.next else c, #[], 0, -1, [], true, []⟩

def push (s : Scanner) (t : Token) : Scanner := { s with tokens := s.tokens.push [t] }

def moveTo (s : Scanner) (c : Cursor) : Scanner := { s with cursor := c }

/-- A token put in front of another one. -/
def insert (s : Scanner) (slot : Nat) (t : Token) : Scanner :=
  { s with tokens := s.tokens.modify slot (t :: ·) }

/-- Whether a candidate cannot be a key any more: keys stand in one line and are not too long. -/
def isStale (c : Cursor) (k : Candidate) : Bool := k.line ≠ c.line || 1024 < c.index - k.index

/-- Candidates that cannot be keys any more are dropped; one that has to be a key is an error. -/
def dropStale (s : Scanner) : Step :=
  if s.candidates.any fun k => isStale s.cursor k.2 && k.2.required then .error .malformed
  else .ok { s with candidates := s.candidates.filter fun k => !isStale s.cursor k.2 }

/-- The candidate at the present depth is dropped, unless it has to be a key. -/
def dropCandidate (s : Scanner) : Step :=
  match s.candidates.lookup s.flow with
  | some k =>
    if k.required then .error .malformed
    else .ok { s with candidates := s.candidates.filter fun k => k.1 ≠ s.flow }
  | none => .ok s

/-- The next token may begin a key, where keys may begin. At the column of the block it has to. -/
def saveCandidate (s : Scanner) : Step :=
  if s.fresh then do
    let c := s.cursor
    let s' ← s.dropCandidate
    let k : Candidate :=
      ⟨s.tokens.size, s.flow = 0 && s.indent = c.column, c.index, c.line, c.column⟩
    .ok { s' with candidates := (s.flow, k) :: s'.candidates }
  else .ok s

/-- Blocks that are deeper than a column end. -/
def unwind (column : Int) : List Int → Scanner → Scanner
  | [], s => s
  | outer :: indents, s =>
    if column < s.indent then
      unwind column indents { s.push .blockEnd with indent := outer, indents }
    else s

/-- Blocks that are deeper than a column end; between brackets there are none. -/
def unwindTo (column : Int) (s : Scanner) : Scanner :=
  if s.flow = 0 then unwind column s.indents s else s

/-- Whether a new block begins at a column. -/
def isDeeper (s : Scanner) (column : Nat) : Bool := s.indent < column

/-- A new block at a column. -/
def deepen (s : Scanner) (column : Nat) : Scanner :=
  { s with indent := column, indents := s.indent :: s.indents }

/-- Spaces, comments and line ends are passed. Outside of brackets a key may begin in a new line. -/
def skipGaps : Nat → Scanner → Scanner
  | 0, s => s
  | fuel + 1, s =>
    let c := (s.cursor.skipWhile (· = ' ')).skipComment
    match c.lineBreak? with
    | some (_, c) => skipGaps fuel { s with cursor := c, fresh := s.fresh || s.flow = 0 }
    | none => s.moveTo c

/-- A token of one character. -/
def single (s : Scanner) (t : Token) (fresh : Bool) : Scanner :=
  { (s.push t).moveTo s.cursor.next with fresh }

/-- The first token of a block, where it is deeper than the one around it. -/
def openBlock (s : Scanner) (t : Token) : Step :=
  if s.flow = 0 then
    if s.fresh then
      .ok (if s.isDeeper s.cursor.column then (s.push t).deepen s.cursor.column else s)
    else .error .malformed
  else .ok s

/-- All blocks end, and no key may begin. -/
def leaveBlocks (s : Scanner) : Step := do
  let s ← (s.unwindTo (-1)).dropCandidate
  .ok { s with fresh := false }

/-- The sign of an entry of a sequence. -/
def readEntry (s : Scanner) : Step := do
  let s ← s.openBlock .sequenceStart
  let s ← s.dropCandidate
  .ok (s.single .entry true)

/-- The sign of a key. -/
def readKey (s : Scanner) : Step := do
  let s ← s.openBlock .mappingStart
  let s ← s.dropCandidate
  .ok (s.single .key (s.flow = 0))

/-- The sign of a value. If a candidate for a key stands in front of it, that is the key. -/
def readValue (s : Scanner) : Step :=
  match s.candidates.lookup s.flow with
  | some k =>
    let s := { s with candidates := s.candidates.filter fun k => k.1 ≠ s.flow }
    let s := s.insert k.slot .key
    let s :=
      if s.flow = 0 && s.isDeeper k.column then
        (s.insert k.slot .mappingStart).deepen k.column
      else s
    .ok (s.single .value false)
  | none => do
    let s ← s.openBlock .mappingStart
    let s ← s.dropCandidate
    .ok (s.single .value (s.flow = 0))

/-- The start of a collection between brackets. -/
def openFlow (s : Scanner) (t : Token) : Step := do
  let s ← s.saveCandidate
  .ok { s.single t true with flow := s.flow + 1 }

/-- The end of a collection between brackets. -/
def closeFlow (s : Scanner) (t : Token) : Step :=
  if s.flow = 0 then .error .malformed
  else do
    let s ← s.dropCandidate
    .ok { s.single t false with flow := s.flow - 1 }

/-- What may follow the name of an anchor. -/
def endsAnchor (c : Option Char) : Bool :=
  isGap c || c.any fun ch => "?:,]\x7d%@`".toList.contains ch

/-- The name of an anchor or an alias behind its sign. -/
def readAnchor (s : Scanner) (t : String → Token) : Step := do
  let s ← s.saveCandidate
  let (name, c) := s.cursor.next.span isWordChar
  if name.isEmpty || !endsAnchor c.peek then .error .malformed
  else .ok { (s.push (t (String.ofList name))).moveTo c with fresh := false }

/-- The characters of the names of tags. -/
def isTagChar (c : Char) : Bool := c.isAlphanum || "-;/?:@&=+$,_.!~*'()[]".toList.contains c

/-- The octets of escapes that follow each other. -/
def tagOctets : Nat → Cursor → Except Fault (List UInt8 × Cursor)
  | 0, _ => .error .malformed
  | fuel + 1, c =>
    if c.peek = some '%' then
      match hexNumber? c.next 2 with
      | some n => do
        let (more, c) ← tagOctets fuel (c.skip 3)
        .ok (n.toUInt8 :: more, c)
      | none => .error .malformed
    else .ok ([], c)

/-- The name of a tag, in which octets of characters may be escaped. -/
def tagName : Nat → Cursor → Except Fault (String × Cursor)
  | 0, _ => .error .malformed
  | fuel + 1, c => do
    let (cs, c) := c.span isTagChar
    if c.peek = some '%' then
      let (octets, c) ← tagOctets (c.rest.length + 1) c
      match String.fromUTF8? ⟨octets.toArray⟩ with
      | some text => do
        let (more, c) ← tagName fuel c
        .ok (String.ofList cs ++ text ++ more, c)
      | none => .error .malformed
    else .ok (String.ofList cs, c)

/-- The name of a tag, which is not empty. -/
def fullTagName (c : Cursor) : Except Fault (String × Cursor) := do
  let (name, c) ← tagName (c.rest.length + 1) c
  if name.isEmpty then .error .malformed else .ok (name, c)

/-- A handle between two exclamation marks; one mark alone in front of a space is a handle too. -/
def tagHandle (c : Cursor) : Except Fault (String × Cursor) :=
  if c.peek ≠ some '!' then .error .malformed
  else if c.peekAt 1 = some ' ' then .ok ("!", c.next)
  else
    let (word, c) := c.next.span isWordChar
    if c.peek = some '!' then .ok (String.ofList ('!' :: (word ++ ['!'])), c.next)
    else .error .malformed

/-- The tag at a place. -/
def writtenTag (c : Cursor) : Except Fault (WrittenTag × Cursor) :=
  if c.peekAt 1 = some '<' then do
    let (suffix, c) ← fullTagName (c.skip 2)
    if c.peek = some '>' then .ok (⟨none, suffix⟩, c.next) else .error .malformed
  else if isGap (c.peekAt 1) then .ok (⟨none, "!"⟩, c.next)
  else do
    let word := (c.rest.drop 1).takeWhile fun ch => !isWideGap (some ch)
    let (handle, c) ← if word.contains '!' then tagHandle c else .ok ("!", c.next)
    let (suffix, c) ← fullTagName c
    .ok (⟨some handle, suffix⟩, c)

/-- A tag. -/
def readTag (s : Scanner) : Step := do
  let s ← s.saveCandidate
  let (tag, c) ← writtenTag s.cursor
  if isWideGap c.peek then .ok { (s.push (.tag tag)).moveTo c with fresh := false }
  else .error .malformed

/-- The number of a version. -/
def versionNumber (c : Cursor) : Except Fault (Nat × Cursor) :=
  let (digits, c) := c.span Char.isDigit
  if digits.isEmpty then .error .malformed
  else .ok (digits.foldl (fun n ch => 10 * n + (ch.toNat - 48)) 0, c)

/-- What a directive says behind its name. -/
def directiveValue (name : String) (c : Cursor) : Except Fault (Token × Cursor) :=
  if name = "YAML" then do
    let (major, c) ← versionNumber (c.skipWhile (· = ' '))
    if c.peek ≠ some '.' then throw .malformed
    let (_, c) ← versionNumber c.next
    if isWideGap c.peek then .ok (.version major, c) else .error .malformed
  else if name = "TAG" then do
    let (handle, c) ← tagHandle (c.skipWhile (· = ' '))
    if c.peek ≠ some ' ' then throw .malformed
    let (uri, c) ← fullTagName (c.skipWhile (· = ' '))
    if isWideGap c.peek then .ok (.handle handle uri, c) else .error .malformed
  else .ok (.directive, c.skipWhile fun ch => !isBreak ch)

/-- A directive. -/
def readDirective (s : Scanner) : Step := do
  let s ← s.leaveBlocks
  let (name, c) := s.cursor.next.span isWordChar
  if name.isEmpty || !isWideGap c.peek then throw .malformed
  let (token, c) ← directiveValue (String.ofList name) c
  match c.skipLine? with
  | some c => .ok ((s.push token).moveTo c)
  | none => .error .malformed

/-- The marker at the start or the end of a document. -/
def readMarker (s : Scanner) (t : Token) : Step := do
  let s ← s.leaveBlocks
  .ok ((s.push t).moveTo (s.cursor.skip 3))

/-- A block of lines; a key may begin behind it. -/
def readBlockScalar (s : Scanner) (folding : Bool) : Step := do
  let s ← s.dropCandidate
  let (text, c) ← readBlock folding s.indent s.cursor.next
  .ok { (s.push (.scalar text false)).moveTo c with fresh := true }

/-- A quoted text. -/
def readQuotedScalar (s : Scanner) (double : Bool) : Step := do
  let s ← s.saveCandidate
  let c := s.cursor.next
  let (text, c) ← readQuoted double (c.rest.length + 1) [] c
  .ok { (s.push (.scalar text false)).moveTo c with fresh := false }

/-- A plain text. -/
def readPlainScalar (s : Scanner) : Step := do
  let s ← s.saveCandidate
  let c := s.cursor
  let (text, fresh, c) :=
    readPlain (s.flow ≠ 0) (s.indent + 1).toNat (c.rest.length + 1) [] [] false c
  .ok { (s.push (.scalar text true)).moveTo c with fresh }

/-- The characters that begin no plain text. -/
def isIndicator (c : Char) : Bool := "-?:,[]\x7b\x7d#&*!|>'\"%@`".toList.contains c

/-- Whether a plain text begins at a place. -/
def atPlain (s : Scanner) (ch : Char) : Bool :=
  !(isBlank ch || isBreak ch || isIndicator ch)
    || (!isGap (s.cursor.peekAt 1) && (ch = '-' || (s.flow = 0 && (ch = '?' || ch = ':'))))

/-- The token that begins with a character. -/
def readToken (s : Scanner) (ch : Char) : Step :=
  let gap := isGap (s.cursor.peekAt 1)
  let atStart := s.cursor.column = 0
  if ch = '%' && atStart then s.readDirective
  else if atStart && s.cursor.atMarker '-' then s.readMarker .documentStart
  else if atStart && s.cursor.atMarker '.' then s.readMarker .documentEnd
  else if ch = '[' then s.openFlow .openBracket
  else if ch = '\x7b' then s.openFlow .openBrace
  else if ch = ']' then s.closeFlow .closeBracket
  else if ch = '\x7d' then s.closeFlow .closeBrace
  else if ch = ',' then do
    let s ← s.dropCandidate
    .ok (s.single .comma true)
  else if ch = '-' && gap then s.readEntry
  else if ch = '?' && (s.flow ≠ 0 || gap) then s.readKey
  else if ch = ':' && (s.flow ≠ 0 || gap) then s.readValue
  else if ch = '*' then s.readAnchor .alias
  else if ch = '&' then s.readAnchor .anchor
  else if ch = '!' then s.readTag
  else if ch = '|' && s.flow = 0 then s.readBlockScalar false
  else if ch = '>' && s.flow = 0 then s.readBlockScalar true
  else if ch = '\'' then s.readQuotedScalar false
  else if ch = '"' then s.readQuotedScalar true
  else if s.atPlain ch then s.readPlainScalar
  else .error .malformed

/-- The tokens of a document from a place on. -/
def readAll : Nat → Scanner → Step
  | 0, _ => .error .malformed
  | fuel + 1, s => do
    let s ← (skipGaps (s.cursor.rest.length + 1) s).dropStale
    match s.cursor.peek with
    | none => s.leaveBlocks
    | some ch => do
      let s ← (s.unwindTo s.cursor.column).readToken ch
      readAll fuel s

end Scanner

/-- The tokens of a text. -/
def tokens (cs : List Char) : Except Fault (List Token) := do
  let s ← Scanner.readAll (cs.length + 1) (.start cs)
  .ok s.tokens.toList.flatten

end Bellows.Yaml
