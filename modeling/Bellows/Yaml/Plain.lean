import Bellows.Text.Numeral
import Bellows.Value.Timestamp
import Bellows.Yaml.Node

/-!
Plain scalars: what a text without quotation marks stands for, by its form alone.
-/
namespace Bellows.Yaml

/-- What a node is to be read as. -/
inductive Kind
  | null
  | logical
  | whole
  | decimal
  | timestamp
  | merge
  | default
  | text
  | sequence
  | mapping
  | set
  | pairs
  | octets
  deriving DecidableEq, Repr

namespace Kind

/-- The names of tags that have a meaning. -/
def names : List (String × Kind) :=
  [("null", null), ("bool", logical), ("int", whole), ("float", decimal), ("timestamp", timestamp),
   ("merge", merge), ("value", default), ("str", text), ("seq", sequence), ("map", mapping),
   ("set", set), ("omap", pairs), ("pairs", pairs), ("binary", octets)]

/-- The kind that a full name of a tag stands for. -/
def ofName? (name : String) : Option Kind :=
  (names.find? fun n => name = "tag:yaml.org,2002:" ++ n.1).map Prod.snd

end Kind

namespace Plain

def nullWords : List String := ["", "~", "null", "Null", "NULL"]

def trueWords : List String := ["yes", "Yes", "YES", "true", "True", "TRUE", "on", "On", "ON"]

def falseWords : List String := ["no", "No", "NO", "false", "False", "FALSE", "off", "Off", "OFF"]

/-- A text without its sign. -/
def unsigned : List Char → List Char
  | '+' :: cs | '-' :: cs => cs
  | cs => cs

def isDigitOr (c : Char) : Bool := c.isDigit || c = '_'

/-- Digits with underscores between them, a digit in front. -/
def isRun : List Char → Bool
  | [] => false
  | c :: cs => c.isDigit && cs.all isDigitOr

/-- One digit, or two that are less than sixty. -/
def isSixtieth : List Char → Bool
  | [c] => c.isDigit
  | [c, d] => '0' ≤ c && c ≤ '5' && d.isDigit
  | _ => false

/-- The parts of a text between colons. -/
def colonParts (cs : List Char) : List (List Char) :=
  ((String.ofList cs).splitOn ":").map String.toList

/-- A number in base sixty: a run, and at least one part behind a colon. -/
def isSexagesimal (cs : List Char) : Bool :=
  match colonParts cs with
  | first :: p :: parts => isRun first && (p :: parts).all isSixtieth
  | _ => false

/-- A whole number in base ten, two, eight, sixteen or sixty. -/
def isWhole (cs : List Char) : Bool :=
  match unsigned cs with
  | ['0'] => true
  | '0' :: 'b' :: digits => !digits.isEmpty && digits.all fun c => c = '0' || c = '1' || c = '_'
  | '0' :: 'x' :: digits => !digits.isEmpty && digits.all fun c => (hexDigit? c).isSome || c = '_'
  | '0' :: digits => digits.all fun c => ('0' ≤ c && c ≤ '7') || c = '_'
  | cs => isRun cs || isSexagesimal cs

/-- An exponent with its sign, or nothing. -/
def isExponent : List Char → Bool
  | [] => true
  | e :: sign :: digits =>
    (e = 'e' || e = 'E') && (sign = '+' || sign = '-') && !digits.isEmpty && digits.all Char.isDigit
  | _ => false

/-- Digits of a fraction, and perhaps an exponent. -/
def isFraction (cs : List Char) : Bool := isExponent (cs.dropWhile isDigitOr)

def infinityWords : List String := [".inf", ".Inf", ".INF"]

def nanWords : List String := [".nan", ".NaN", ".NAN"]

/-- A number with a point. -/
def isDecimal (cs : List Char) : Bool :=
  let body := unsigned cs
  let (front, rest) := body.span (· ≠ '.')
  match rest with
  | _ :: fraction =>
    (isRun front && isFraction fraction)
      || (front.isEmpty && cs.head? = some '.' && fraction.head?.any Char.isDigit &&
        isFraction fraction)
      || (isSexagesimal front && fraction.all isDigitOr)
      || infinityWords.contains (String.ofList body) || nanWords.contains (String.ofList cs)
  | [] => false

/-- The parts of a date and a time as they are written. -/
structure Stamp where
  year : List Char
  month : List Char
  day : List Char
  /-- Hour, minute, second, and digits of a fraction. -/
  time : Option (List Char × List Char × List Char × List Char)
  /-- The sign, the hours and the minutes of an offset; no hours for universal time. -/
  zone : Option (Char × List Char × List Char)

/-- Digits at the front, so many at least and at most. -/
def digits? (least most : Nat) (cs : List Char) : Option (List Char × List Char) :=
  let taken := (cs.take most).takeWhile Char.isDigit
  if least ≤ taken.length then some (taken, cs.drop taken.length) else none

def expect? (c : Char) : List Char → Option (List Char)
  | [] => none
  | d :: cs => if c = d then some cs else none

/-- The zone at the end of a time. -/
def zone? (cs : List Char) : Option (Option (Char × List Char × List Char)) :=
  match cs.dropWhile isBlank with
  | [] => if cs.isEmpty then some none else none
  | ['Z'] => some (some ('Z', [], []))
  | sign :: rest =>
    if sign = '+' || sign = '-' then do
      let (hours, rest) ← digits? 1 2 rest
      match rest with
      | [] => some (some (sign, hours, []))
      | ':' :: rest => do
        let (minutes, rest) ← digits? 2 2 rest
        if rest.isEmpty then some (some (sign, hours, minutes)) else none
      | _ => none
    else none

/-- What stands between a date and a time. -/
def timeMark? : List Char → Option (List Char)
  | 'T' :: cs | 't' :: cs => some cs
  | c :: cs => if isBlank c then some (cs.dropWhile isBlank) else none
  | [] => none

/-- A date, perhaps with a time and a zone behind it. -/
def stamp? (cs : List Char) : Option Stamp := do
  let (year, rest) ← digits? 4 4 cs
  let rest ← expect? '-' rest
  let (month, rest) ← digits? 1 2 rest
  let rest ← expect? '-' rest
  let (day, rest) ← digits? 1 2 rest
  if rest.isEmpty then some ⟨year, month, day, none, none⟩
  else do
    let rest ← timeMark? rest
    let (hour, rest) ← digits? 1 2 rest
    let rest ← expect? ':' rest
    let (minute, rest) ← digits? 2 2 rest
    let rest ← expect? ':' rest
    let (second, rest) ← digits? 2 2 rest
    let (fraction, rest) := match rest with
      | '.' :: rest => rest.span Char.isDigit
      | rest => ([], rest)
    let zone ← zone? rest
    some ⟨year, month, day, some (hour, minute, second, fraction), zone⟩

/-- A date alone has two digits for month and day. -/
def isStamp (cs : List Char) : Bool :=
  (stamp? cs).any fun s => s.time.isSome || (s.month.length = 2 && s.day.length = 2)

/-- What a plain text stands for. -/
def kindOf (text : String) : Kind :=
  let cs := text.toList
  if nullWords.contains text then .null
  else if trueWords.contains text || falseWords.contains text then .logical
  else if isDecimal cs then .decimal
  else if isWhole cs then .whole
  else if text = "<<" then .merge
  else if isStamp cs then .timestamp
  else if text = "=" then .default
  else .text

end Plain
end Bellows.Yaml
