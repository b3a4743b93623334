import Bellows.Encoding.Unicode
import Bellows.Role.ParameterFile
import Bellows.Yaml.Plain

/-!
The values of nodes. Mappings may take over the entries of others; their own entries go before
those, and of entries with the same key the last one holds. A node that contains itself is read as
an empty one there. The program runs with this reader of parameter files (`reader`), but nothing
that is proved about the program depends on it: any other reader may take its place.
-/
namespace Bellows.Yaml

/-- The sixty-fold steps of a number, the last part first. -/
def sixtyFold (parts : List Int) : Int := parts.foldl (fun n part => 60 * n + part) 0

/-- A whole number in base ten. -/
def decimalWhole (text : String) : Except Fault Int :=
  match readInteger text with
  | .ok n => .ok n
  | .error .malformed => .error (.notWhole 10 text)
  | .error (.tooLong digits) => .error (.hugeInteger digits)

/-- The mark that may stand in front of the digits of a base. -/
def baseMark : Nat → Char
  | 2 => 'b'
  | 8 => 'o'
  | _ => 'x'

/-- Digits behind the mark of their base, if they have one. -/
def dropMark (base : Nat) : List Char → List Char
  | '0' :: m :: cs => if m.toLower = baseMark base then cs else '0' :: m :: cs
  | cs => cs

/-- A whole number in base two, eight or sixteen. -/
def wholeIn (base : Nat) (text : String) : Except Fault Int :=
  let (negative, cs) := Numeral.splitSign (Numeral.prepare text)
  let digits := dropMark base cs
  let value := digits.foldlM (fun n c => do
    let d ← hexDigit? c
    if d < base then some (base * n + d) else none) 0
  match digits, value with
  | _ :: _, some n => .ok (if negative then -(n : Int) else n)
  | _, _ => .error (.notWhole base text)

/-- A whole number behind its sign. -/
def unsignedWhole (cs : List Char) : Except Fault Int :=
  match cs with
  | [] => .error .emptyNumber
  | ['0'] => .ok 0
  | '0' :: 'b' :: digits => wholeIn 2 (String.ofList digits)
  | '0' :: 'x' :: digits => wholeIn 16 (String.ofList digits)
  | '0' :: _ => wholeIn 8 (String.ofList cs)
  | cs =>
    if cs.contains ':' then do
      let parts ← (Plain.colonParts cs).mapM fun part => decimalWhole (String.ofList part)
      .ok (sixtyFold parts)
    else decimalWhole (String.ofList cs)

/-- A text without underscores, and whether a minus sign stands in front of it. -/
def splitNumber (text : String) : Bool × List Char :=
  let cs := text.toList.filter (· ≠ '_')
  (cs.head? = some '-', Plain.unsigned cs)

/-- A whole number. -/
def readWhole (text : String) : Except Fault Int :=
  let (negative, cs) := splitNumber text
  (unsignedWhole cs).map fun n => if negative then -n else n

/-- A decimal number in base ten. -/
def decimalPart (cs : List Char) : Except Fault Binary64 :=
  match readBinary64 (String.ofList cs) with
  | some x => .ok x
  | none => .error (.notDecimal (String.ofList cs))

/-- A decimal number in base sixty, its parts added up from the last one on. -/
def sixtyFoldDecimal (parts : List Binary64) : Binary64 :=
  (parts.reverse.foldl (fun (sum, step) part => (Binary64.add sum (part.times step), step * 60))
    (Binary64.zero, 1)).1

/-- Whether the step of the first part is beyond all finite numbers. -/
def hasHugeStep (parts : List Binary64) : Bool :=
  (Binary64.ofInt? (Nat.pow 60 (parts.length - 1))).isNone

/-- A decimal number behind its sign. -/
def unsignedDecimal (cs : List Char) : Except Fault Binary64 :=
  if String.ofList cs = ".inf" then .ok (.infinite false)
  else if String.ofList cs = ".nan" then .ok .nan
  else if cs.contains ':' then do
    let parts ← (Plain.colonParts cs).mapM decimalPart
    if hasHugeStep parts then .error .hugeStep else .ok (sixtyFoldDecimal parts)
  else decimalPart cs

/-- A decimal number. -/
def readDecimal (text : String) : Except Fault Binary64 :=
  if text.toList.all (· = '_') then .error .emptyNumber
  else
    let (negative, cs) := splitNumber text.toLower
    (unsignedDecimal cs).map fun x => if negative then x.neg else x

/-- A logical value, whatever the size of its letters. -/
def readLogical (text : String) : Except Fault Bool :=
  let word := text.toLower
  if Plain.trueWords.contains word then .ok true
  else if Plain.falseWords.contains word then .ok false
  else .error (.notLogical word)

/-- The number of some digits. -/
def numberOf (cs : List Char) : Nat := Numeral.digitsValue cs

/-- A fraction of a second in millionths. -/
def millionths (cs : List Char) : Nat :=
  let kept := cs.take 6
  numberOf (kept ++ List.replicate (6 - kept.length) '0')

/-- A date of the calendar. -/
def readDate (s : Plain.Stamp) : Except Fault Date :=
  let date : Date := ⟨numberOf s.year, numberOf s.month, numberOf s.day⟩
  if date.year = 0 then .error (.badDate "year 0 is out of range")
  else if date.month = 0 || 12 < date.month then .error (.badDate "month must be in 1..12")
  else if date.day = 0 || Date.daysIn date.year date.month < date.day then
    .error (.badDate "day is out of range for month")
  else .ok date

/-- The offset of a zone in minutes. -/
def offsetOf (zone : Char × List Char × List Char) : Int :=
  let minutes : Int := 60 * numberOf zone.2.1 + numberOf zone.2.2
  if zone.1 = '-' then -minutes else minutes

/-- A length of time as a message quotes it. -/
def quotedDuration (minutes : Int) : String :=
  let days := Int.fdiv minutes 1440
  let seconds := Int.fmod minutes 1440 * 60
  if seconds = 0 then s!"datetime.timedelta(days={days})"
  else s!"datetime.timedelta(days={days}, seconds={seconds})"

/-- An offset is less than a day. -/
def readOffset (zone : Char × List Char × List Char) : Except Fault Int :=
  let minutes := offsetOf zone
  if minutes.natAbs < 1440 then .ok minutes
  else .error (.badDate ("offset must be a timedelta strictly between -timedelta(hours=24) and "
    ++ s!"timedelta(hours=24), not {quotedDuration minutes}."))

/-- A date, or a moment of a day. -/
def readStamp (text : String) : Except Fault Value :=
  match Plain.stamp? text.toList with
  | none => .error .notTimestamp
  | some s =>
    match s.time with
    | none => (readDate s).map .date
    | some (hour, minute, second, fraction) => do
      let offset ← match s.zone with
        | none => .ok none
        | some zone => (readOffset zone).map some
      let date ← readDate s
      if 23 < numberOf hour then throw (.badDate "hour must be in 0..23")
      if 59 < numberOf minute then throw (.badDate "minute must be in 0..59")
      if 59 < numberOf second then throw (.badDate "second must be in 0..59")
      .ok (.moment
        ⟨date, numberOf hour, numberOf minute, numberOf second, millionths fraction, offset⟩)

/-- The value of a character in base 64. -/
def sextet? (c : Char) : Option Nat :=
  let n := c.toNat
  if c.isUpper then some (n - 65)
  else if c.isLower then some (n - 71)
  else if c.isDigit then some (n + 4)
  else if c = '+' then some 62
  else if c = '/' then some 63
  else none

/-- The values of the characters in base 64 up to the padding; other characters are passed. The
number says how many stand in the present group of four. -/
def sextets : Nat → List Char → Option (List Nat)
  | place, [] => if place = 0 then some [] else none
  | place, c :: cs =>
    match sextet? c with
    | some v => (sextets ((place + 1) % 4) cs).map (v :: ·)
    | none =>
      if c = '=' && 2 ≤ place then
        if place = 3 || (cs.filter fun c => c = '=' || (sextet? c).isSome).head? = some '=' then
          some []
        else sextets place cs
      else sextets place cs

/-- Three octets of each four values; less at the end. -/
def octetsOf : List Nat → List UInt8
  | a :: b :: c :: d :: rest =>
    (a * 4 + b / 16).toUInt8 :: (b % 16 * 16 + c / 4).toUInt8 :: (c % 4 * 64 + d).toUInt8 ::
      octetsOf rest
  | [a, b, c] => [(a * 4 + b / 16).toUInt8, (b % 16 * 16 + c / 4).toUInt8]
  | [a, b] => [(a * 4 + b / 16).toUInt8]
  | _ => []

/-- Octets in base 64. -/
def readOctets (text : String) : Except Fault (List UInt8) :=
  if text.toList.all fun c => c.toNat < 128 then
    match sextets 0 text.toList with
    | some values => .ok (octetsOf values)
    | none => .error .malformed
  else .error .malformed

namespace Node

/-- The kind of a node: by its tag, or by its form where it has none. -/
def kind? : Node → Option Kind
  | .scalar (.given name) _ | .sequence (.given name) _ | .mapping (.given name) _ =>
    Kind.ofName? name
  | .scalar .plain text => some (Plain.kindOf text)
  | .scalar .quoted _ => some .text
  | .sequence .. => some .sequence
  | .mapping .. => some .mapping

/-- The text of a scalar. A mapping counts as the scalar under the key of its default. -/
def text? : Node → Option String
  | .scalar _ text => some text
  | .sequence .. => none
  | .mapping _ entries => textOfDefault entries
where
  textOfDefault : List (Node × Node) → Option String
    | [] => none
    | (k, v) :: rest => if k.kind? = some .default then v.text? else textOfDefault rest

/-- A key that stands for a default is a text where it is a key. -/
def asKey (k : Node) : Node :=
  match k with
  | .scalar _ text => if k.kind? = some .default then .scalar .quoted text else k
  | k => k

/-- Whether an entry takes over the entries of others. -/
def isMerge (k : Node) : Bool := k.kind? = some .merge

mutual

/-- The entries of a node that is taken over. -/
def taken : Node → Option (List (Node × Node))
  | .mapping _ entries => flatten entries
  | .sequence _ items => takenFrom items
  | .scalar .. => none

/-- The entries of mappings that are taken over, those of the last one first. -/
def takenFrom : List Node → Option (List (Node × Node))
  | [] => some []
  | .mapping _ entries :: rest => do
    let own ← flatten entries
    let others ← takenFrom rest
    some (others ++ own)
  | _ :: _ => none

/-- Entries with those that they take over in front of them. -/
def flatten : List (Node × Node) → Option (List (Node × Node))
  | entries => do
    let merged ← mergedOf entries
    let own := (entries.filter fun e => !e.1.isMerge).map fun e => (e.1.asKey, e.2)
    some (merged ++ own)

/-- The entries that are taken over, in order. -/
def mergedOf : List (Node × Node) → Option (List (Node × Node))
  | [] => some []
  | (k, v) :: rest => do
    let here ← if k.isMerge then taken v else some []
    let more ← mergedOf rest
    some (here ++ more)

end

end Node

/-- A result that is there, or a malformed document. -/
def need {α : Type} (a : Option α) : Except Fault α :=
  match a with
  | some a => .ok a
  | none => .error .malformed

/-- The value of a scalar of a kind. -/
def scalarValue (kind : Kind) (text : String) : Except Fault Value :=
  match kind with
  | .null => .ok .null
  | .logical => (readLogical text).map .bool
  | .whole => (readWhole text).map .int
  | .decimal => (readDecimal text).map .float
  | .timestamp => readStamp text
  | .text => .ok (.text text)
  | .octets => (readOctets text).map .bytes
  | _ => .error .malformed

/-- Keys, each once. -/
def keySet (entries : List (Value × Value)) : Value :=
  match Value.ofEntries entries with
  | .map entries => .set (entries.map Prod.fst)
  | v => v

/-- A key and its value as a pair. -/
def pairOf (entry : Value × Value) : Value := .tuple [entry.1, entry.2]

mutual

/-- The value of a node; the number bounds the depth of nodes. -/
def valueOf : Nat → Node → Except Fault Value
  | 0, _ => .error .malformed
  | fuel + 1, n =>
    match n.kind?, n with
    | none, _ | some .merge, _ | some .default, _ => .error .malformed
    | some .sequence, .sequence _ items => (valuesOf fuel items).map .list
    | some .sequence, _ => .error .malformed
    | some .mapping, .mapping _ entries => do
      let entries ← need (Node.flatten entries)
      let entries ← entriesOf fuel entries
      .ok (.ofEntries entries)
    | some .mapping, _ => .error .malformed
    | some .set, .mapping _ entries => do
      let entries ← need (Node.flatten entries)
      let entries ← entriesOf fuel entries
      .ok (keySet entries)
    | some .set, _ => .error .malformed
    | some .pairs, .sequence _ items => (pairsOf fuel items).map .list
    | some .pairs, _ => .error .malformed
    | some .timestamp, .mapping .. =>
      .error (if n.text?.isSome then .mappedTimestamp else .malformed)
    | some kind, n => do
      let text ← need n.text?
      scalarValue kind text

def valuesOf : Nat → List Node → Except Fault (List Value)
  | 0, _ => .error .malformed
  | _ + 1, [] => .ok []
  | fuel + 1, n :: ns => do
    let v ← valueOf fuel n
    let vs ← valuesOf fuel ns
    .ok (v :: vs)

/-- The values of entries; collections may not be keys. -/
def entriesOf : Nat → List (Node × Node) → Except Fault (List (Value × Value))
  | 0, _ => .error .malformed
  | _ + 1, [] => .ok []
  | fuel + 1, (k, v) :: rest => do
    let k ← valueOf fuel k
    if k.canBeKey then
      let v ← valueOf fuel v
      let more ← entriesOf fuel rest
      .ok ((k, v) :: more)
    else .error .malformed

/-- The values of mappings of one entry each, as pairs. -/
def pairsOf : Nat → List Node → Except Fault (List Value)
  | 0, _ => .error .malformed
  | _ + 1, [] => .ok []
  | fuel + 1, .mapping _ [(k, v)] :: rest => do
    let k ← valueOf fuel k
    let v ← valueOf fuel v
    let more ← pairsOf fuel rest
    .ok (pairOf (k, v) :: more)
  | _ + 1, _ :: _ => .error .malformed

end

mutual

/-- The size of a node, which bounds its depth and the lengths of its collections. -/
def Node.size : Node → Nat
  | .scalar .. => 1
  | .sequence _ items => 1 + sizeOfItems items
  | .mapping _ entries => 1 + sizeOfEntries entries

def sizeOfItems : List Node → Nat
  | [] => 1
  | n :: ns => n.size + sizeOfItems ns

def sizeOfEntries : List (Node × Node) → Nat
  | [] => 1
  | (k, v) :: rest => k.size + v.size + sizeOfEntries rest

end

/-- The value of a text; a text without a document has none. -/
def read (s : String) : Except Fault Value :=
  let cs := unifyLineEnds s.toList
  if cs.all isAllowed then do
    match ← read? cs with
    | none => .ok .null
    | some n => valueOf (n.size + n.size + 2) n
  else .error .malformed

def Fault.message : Fault → String
  | .malformed => "not valid YAML"
  | .noCharacter => "chr() arg not in range(0x110000)"
  | .hugeCharacter => "int too large to convert to C int"
  | .halfPair => "surrogates not allowed"
  | .notWhole base text => s!"invalid literal for int() with base {base}: {Bellows.quoted text}"
  | .hugeInteger digits =>
    s!"Exceeds the limit ({digitLimit} digits) for integer string conversion: value has {digits} "
      ++ "digits; use sys.set_int_max_str_digits() to increase the limit"
  | .notDecimal text => s!"could not convert string to float: {Bellows.quoted text}"
  | .notLogical text => Bellows.quoted text
  | .emptyNumber => "string index out of range"
  | .hugeStep => "int too large to convert to float"
  | .notTimestamp => "'NoneType' object has no attribute 'groupdict'"
  | .mappedTimestamp => "expected string or bytes-like object, got 'list'"
  | .badDate reason => reason

/-- What a fault is for those who wait for the document. -/
def Fault.reported (fault : Fault) : ReadingFault :=
  match fault with
  | .malformed => .malformed
  | .hugeCharacter | .hugeStep => .unforeseen "OverflowError" fault.message
  | .halfPair => .unforeseen "UnicodeEncodeError" fault.message
  | .notLogical _ => .unforeseen "KeyError" fault.message
  | .emptyNumber => .unforeseen "IndexError" fault.message
  | .notTimestamp => .unforeseen "AttributeError" fault.message
  | .mappedTimestamp => .unforeseen "TypeError" fault.message
  | _ => .refused "ValueError" fault.message

/-- A reader of parameter files in UTF-8, for hosts that have no other one. -/
def reader : DocumentReader := fun octets =>
  match Encoding.decodeUtf8 octets with
  | none => .error (.refused "UnicodeDecodeError" Encoding.notUtf8Message)
  | some text => (read text).mapError Fault.reported

end Bellows.Yaml
