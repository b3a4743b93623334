import Bellows.Text.Numeral
import Bellows.Value.Basic

/-!
JSON read into values. The names of the three numbers without a numeral are accepted, a key that
occurs again keeps its place and takes the new value, and a text may not begin with a mark of byte
order.
-/
namespace Bellows.Json

/-- Why no value is read from a text. -/
inductive Fault
  /-- The text breaks the grammar. -/
  | malformed
  /-- A whole number has too many digits. -/
  | hugeInteger (digits : Nat)
  /-- An escape is half of a pair of units, whose other half is missing. JSON has texts with such
  halves, but no character stands for one. -/
  | unpaired
  deriving DecidableEq, Repr

/-- A reader takes what it reads off the front of the text. -/
abbrev Reader (α : Type) := List Char → Except Fault (α × List Char)

def isSpace (c : Char) : Bool := c = ' ' || c = '\t' || c = '\n' || c = '\r'

def skipSpaces (cs : List Char) : List Char := cs.dropWhile isSpace

def hexValue? (c : Char) : Option Nat :=
  let n := c.toNat
  if 48 ≤ n && n ≤ 57 then some (n - 48)
  else if 65 ≤ n && n ≤ 70 then some (n - 55)
  else if 97 ≤ n && n ≤ 102 then some (n - 87)
  else none

/-- The four digits of an escaped unit. -/
def readUnit : List Char → Option (Nat × List Char)
  | a :: b :: c :: d :: cs => do
    let a ← hexValue? a
    let b ← hexValue? b
    let c ← hexValue? c
    let d ← hexValue? d
    some (((a * 16 + b) * 16 + c) * 16 + d, cs)
  | _ => none

def isHighUnit (u : Nat) : Bool := 0xd800 ≤ u && u < 0xdc00

def isLowUnit (u : Nat) : Bool := 0xdc00 ≤ u && u < 0xe000

/-- The character of a pair of units. -/
def pairedChar (high low : Nat) : Char :=
  Char.ofNat (0x10000 + (high - 0xd800) * 0x400 + (low - 0xdc00))

/-- The character that an escape of one letter stands for. -/
def shortEscape? : Char → Option Char
  | '"' => some '"'
  | '\\' => some '\\'
  | '/' => some '/'
  | 'b' => some (Char.ofNat 8)
  | 'f' => some (Char.ofNat 12)
  | 'n' => some '\n'
  | 'r' => some '\r'
  | 't' => some '\t'
  | _ => none

/-- What follows the first half of a pair must be the escape of the other half. -/
def readPair (high : Nat) : Reader Char
  | '\\' :: 'u' :: cs =>
    match readUnit cs with
    | some (low, rest) =>
      if isLowUnit low then .ok (pairedChar high low, rest) else .error .unpaired
    | none => .error .malformed
  | _ => .error .unpaired

/-- An escape after its backslash. Two units that form a pair are one character. -/
def readEscape : Reader Char
  | 'u' :: cs =>
    match readUnit cs with
    | some (u, rest) =>
      if isHighUnit u then readPair u rest
      else if isLowUnit u then .error .unpaired
      else .ok (Char.ofNat u, rest)
    | none => .error .malformed
  | c :: cs =>
    match shortEscape? c with
    | some d => .ok (d, cs)
    | none => .error .malformed
  | [] => .error .malformed

/-- The rest of a text after its opening mark; the number bounds its length, and `acc` holds what
was read, last character first. -/
def readText : Nat → List Char → Reader String
  | 0, _, _ => .error .malformed
  | fuel + 1, acc, cs => match cs with
    | [] => .error .malformed
    | '"' :: rest => .ok (String.ofList acc.reverse, rest)
    | '\\' :: rest => do
      let (c, rest) ← readEscape rest
      readText fuel (c :: acc) rest
    | c :: rest => if c.toNat < 0x20 then .error .malformed else readText fuel (c :: acc) rest

/-- The digits of a whole part: a zero alone, or digits that begin with another one. -/
def wholeDigits : List Char → Option (List Char × List Char)
  | '0' :: rest => some (['0'], rest)
  | cs =>
    let (digits, rest) := cs.span Char.isDigit
    if digits.isEmpty then none else some (digits, rest)

/-- The digits of a fraction, where a point and a digit follow. -/
def fractionDigits : List Char → List Char × List Char
  | '.' :: rest =>
    let (digits, more) := rest.span Char.isDigit
    if digits.isEmpty then ([], '.' :: rest) else (digits, more)
  | rest => ([], rest)

/-- The exponent, where its letter, an optional sign and a digit follow. -/
def exponentPart (cs : List Char) : Option Int × List Char :=
  match cs with
  | e :: rest =>
    let (negative, after) := Numeral.splitSign rest
    let (digits, more) := after.span Char.isDigit
    if (e = 'e' || e = 'E') && !digits.isEmpty then
      let n : Int := Numeral.digitsValue digits
      (some (if negative then -n else n), more)
    else (none, cs)
  | [] => (none, cs)

/-- A number after its sign: whole unless it has a fraction or an exponent. -/
def readNumber (negative : Bool) : Reader Value := fun cs =>
  match wholeDigits cs with
  | none => .error .malformed
  | some (whole, rest) =>
    let (fraction, rest) := fractionDigits rest
    let (exponent, rest) := exponentPart rest
    if fraction.isEmpty && exponent.isNone then
      if digitLimit < whole.length then .error (.hugeInteger whole.length)
      else
        let n : Int := Numeral.digitsValue whole
        .ok (.int (if negative then -n else n), rest)
    else
      let numeral : Decimal :=
        ⟨Numeral.digitsValue (whole ++ fraction), exponent.getD 0 - fraction.length⟩
      .ok (.float (numeral.toBinary64 negative), rest)

/-- What follows a word, if the text begins with it. -/
def afterWord? (word : String) (cs : List Char) : Option (List Char) :=
  if word.toList.isPrefixOf cs then some (cs.drop word.length) else none

/-- The names of values, with the values. -/
def words : List (String × Value) :=
  [("null", .null), ("true", .bool true), ("false", .bool false), ("NaN", .float .nan),
   ("Infinity", .float (.infinite false)), ("-Infinity", .float (.infinite true))]

/-- A value that is a single word or number. -/
def readScalar : Reader Value := fun cs =>
  match words.findSome? fun (word, v) => (afterWord? word cs).map (v, ·) with
  | some result => .ok result
  | none => match cs with
    | '-' :: rest => readNumber true rest
    | _ => readNumber false cs

mutual

/-- A value; the number bounds the nesting and the length of what is read. -/
def readValue : Nat → Reader Value
  | 0, _ => .error .malformed
  | fuel + 1, cs => match cs with
    | '"' :: rest => do
      let (s, rest) ← readText fuel [] rest
      .ok (.text s, rest)
    | '[' :: rest => match skipSpaces rest with
      | ']' :: rest => .ok (.list [], rest)
      | rest => readItems fuel [] rest
    | '\x7b' :: rest => match skipSpaces rest with
      | '\x7d' :: rest => .ok (.map [], rest)
      | rest => readMembers fuel [] rest
    | _ => readScalar cs

/-- The items of a list from one on; `acc` holds those before it, the last one first. -/
def readItems : Nat → List Value → Reader Value
  | 0, _, _ => .error .malformed
  | fuel + 1, acc, cs => do
    let (v, rest) ← readValue fuel cs
    match skipSpaces rest with
    | ',' :: rest => readItems fuel (v :: acc) (skipSpaces rest)
    | ']' :: rest => .ok (.list (v :: acc).reverse, rest)
    | _ => .error .malformed

/-- The members of a map from one on; `acc` holds those before it, the last one first. -/
def readMembers : Nat → List (Value × Value) → Reader Value
  | 0, _, _ => .error .malformed
  | fuel + 1, acc, cs => match cs with
    | '"' :: rest => do
      let (k, rest) ← readText fuel [] rest
      match skipSpaces rest with
      | ':' :: rest =>
        let (v, rest) ← readValue fuel (skipSpaces rest)
        match skipSpaces rest with
        | ',' :: rest => readMembers fuel ((.text k, v) :: acc) (skipSpaces rest)
        | '\x7d' :: rest => .ok (Value.ofEntries ((.text k, v) :: acc).reverse, rest)
        | _ => .error .malformed
      | _ => .error .malformed
    | _ => .error .malformed

end

/-- A JSON document with nothing but spaces around its value. -/
def read (s : String) : Except Fault Value := do
  let cs := skipSpaces s.toList
  let (v, rest) ← readValue (cs.length + 1) cs
  if (skipSpaces rest).isEmpty then .ok v else .error .malformed

end Bellows.Json
