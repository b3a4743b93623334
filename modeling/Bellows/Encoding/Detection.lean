import Bellows.Encoding.SingleOctet
import Bellows.Encoding.Unicode

/-!
Which encoding a document is in: a mark of byte order tells, or the zeros in the first two octets,
or the name in the first line; without any of these it is UTF-8. The encodings of Unicode and three
that have one octet for each character are described here; any others are left to the host.
-/
namespace Bellows.Encoding

/-- Why octets have no text in an encoding. -/
inductive CodecFault
  /-- There is no such encoding, or the octets do not keep to it. -/
  | undecodable
  /-- The encoding fails in a way that nothing is prepared for. -/
  | unforeseen (kind message : String)
  deriving DecidableEq, Repr

/-- What the encodings of some names make of octets. -/
abbrev Codecs := String → List UInt8 → Except CodecFault String

/-- The spaces between the words of the first line. -/
def isSpaceOctet (b : UInt8) : Bool := b = 0x20 || (9 ≤ b && b ≤ 13)

def isLetterOctet (b : UInt8) : Bool := (0x41 ≤ b && b ≤ 0x5a) || (0x61 ≤ b && b ≤ 0x7a)

/-- The octets of the name of an encoding behind the first. -/
def isNameOctet (b : UInt8) : Bool :=
  isLetterOctet b || (0x30 ≤ b && b ≤ 0x39) || b = 0x2e || b = 0x5f || b = 0x2d

def isQuoteOctet (b : UInt8) : Bool := b = 0x22 || b = 0x27

/-- The octets of a text of ASCII characters. -/
def ascii (s : String) : List UInt8 := s.toList.map fun c => c.toNat.toUInt8

/-- What follows a word, if the octets begin with it. -/
def after? (word : String) (octets : List UInt8) : Option (List UInt8) :=
  if (ascii word).isPrefixOf octets then some (octets.drop word.length) else none

/-- The name of an encoding where one is declared at the front. -/
def declaredHere? (octets : List UInt8) : Option String := do
  let rest ← after? "encoding" octets
  let rest ← after? "=" (rest.dropWhile isSpaceOctet)
  match rest.dropWhile isSpaceOctet with
  | q :: b :: rest =>
    let (name, rest) := rest.span isNameOctet
    if isQuoteOctet q && isLetterOctet b && rest.head?.any isQuoteOctet then
      some (String.ofList ((b :: name).map fun b => Char.ofNat b.toNat))
    else none
  | _ => none

/-- The first declaration in front of a closing bracket. -/
def declaredBefore? : List UInt8 → Option String
  | [] => none
  | b :: rest =>
    match declaredHere? (b :: rest) with
    | some name => some name
    | none => if b = 0x3e then none else declaredBefore? rest

/-- The name of the encoding in the first line of a document. -/
def declared? (octets : List UInt8) : Option String := (after? "<?xml" octets).bind declaredBefore?

/-- A name for units of more than one octet cannot be right where ASCII could be read. -/
def isStale (name : String) : Bool :=
  let lower := name.toLower
  lower.startsWith "utf-16" || lower.startsWith "utf-32"

/-- The name of the encoding of a document. -/
def detect (octets : List UInt8) : String :=
  match octets with
  | 0xef :: 0xbb :: 0xbf :: _ => "utf-8-sig"
  | 0xff :: 0xfe :: _ | 0xfe :: 0xff :: _ => "utf-16"
  | 0x3c :: 0x00 :: _ => "utf-16-le"
  | 0x00 :: 0x3c :: _ => "utf-16-be"
  | _ =>
    match declared? octets with
    | some name => if isStale name then "utf-8" else name
    | none => "utf-8"

/-- A name in small letters, every run of signs in it as one underscore. -/
def plainName (name : String) : String :=
  let words := (name.toLower.map fun c => if c.isAlphanum || c = '.' then c else ' ').splitOn " "
  String.intercalate "_" (words.filter fun word => !word.isEmpty)

def asciiNames : List String :=
  ["ascii", "646", "ansi_x3.4_1968", "ansi_x3_4_1968", "ansi_x3.4_1986", "cp367", "csascii",
   "ibm367", "iso646_us", "iso_646.irv_1991", "iso_ir_6", "us", "us_ascii"]

def latinNames : List String :=
  ["latin_1", "8859", "cp819", "csisolatin1", "ibm819", "iso8859", "iso8859_1", "iso_8859_1",
   "iso_8859_1_1987", "iso_ir_100", "l1", "latin", "latin1"]

def windowsNames : List String := ["cp1252", "1252", "windows_1252"]

def utf8Names : List String := ["utf_8", "u8", "utf", "utf8", "utf8_ucs2", "utf8_ucs4", "cp65001"]

/-- The octets behind the mark of byte order of UTF-8. -/
def dropUtf8Mark : List UInt8 → List UInt8
  | 0xef :: 0xbb :: 0xbf :: rest => rest
  | octets => octets

/-- The text of octets in UTF-16, in the order that the mark tells. -/
def decodeMarked : List UInt8 → Option String
  | 0xff :: 0xfe :: rest => decodeUtf16 false rest
  | 0xfe :: 0xff :: rest => decodeUtf16 true rest
  | octets => decodeUtf16 false octets

/-- A text that may not be there. -/
def orUndecodable : Option String → Except CodecFault String
  | some text => .ok text
  | none => .error .undecodable

/-- The text of octets in the encoding of a name. -/
def decodeAs (others : Codecs) (name : String) (octets : List UInt8) : Except CodecFault String :=
  let plain := plainName name
  if utf8Names.contains plain then orUndecodable (decodeUtf8 octets)
  else if plain = "utf_8_sig" then orUndecodable (decodeUtf8 (dropUtf8Mark octets))
  else if plain = "utf_16" || plain = "u16" || plain = "utf16" then
    orUndecodable (decodeMarked octets)
  else if plain = "utf_16_le" || plain = "utf_16le" then orUndecodable (decodeUtf16 false octets)
  else if plain = "utf_16_be" || plain = "utf_16be" then orUndecodable (decodeUtf16 true octets)
  else if latinNames.contains plain then orUndecodable (decodeEach latinChar? octets)
  else if windowsNames.contains plain then orUndecodable (decodeEach windowsChar? octets)
  else if asciiNames.contains plain then orUndecodable (decodeEach asciiChar? octets)
  else others name octets

/-- The text of a document in the encoding that it seems to be in. -/
def decode (others : Codecs) (octets : List UInt8) : Except CodecFault String :=
  decodeAs others (detect octets) octets

end Bellows.Encoding
