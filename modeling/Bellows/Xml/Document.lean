import Bellows.Text.Classes
import Bellows.Xml.Doctype
import Bellows.Xml.Tree

/-!
Documents: a declaration of the version, a type declaration, and one element. Line ends of all
kinds count as the same.
-/
namespace Bellows.Xml.Document


/-- The mark of byte order, which may stand in front of a document. -/
def dropOrderMark : List Char → List Char
  | c :: cs => if c.toNat = 0xfeff then cs else c :: cs
  | [] => []

/-- The characters of the values in the first line. -/
def isVersionChar (c : Char) : Bool := c.isAlphanum || c = '.' || c = '-' || c = '_'

/-- The settings of the first line, each behind a space. -/
def versionSettings : Nat → List Char → Option (List (String × String))
  | 0, _ => none
  | fuel + 1, cs =>
    if cs.isEmpty then some []
    else do
      let rest ← skipSpace cs
      if rest.isEmpty then some []
      else do
        let (name, rest) := rest.span fun c => c.isAlpha
        let rest ← after? "=" (rest.dropWhile isSpace)
        let (value, rest) ← readQuoted (rest.dropWhile isSpace)
        if value.all isVersionChar then
          let more ← versionSettings fuel rest
          some ((String.ofList name, String.ofList value) :: more)
        else none

/-- Whether the name of an encoding begins with a letter. -/
def isEncodingName (s : String) : Bool := s.toList.head?.any Char.isAlpha

/-- Whether a document stands alone, by the last setting of its first line. -/
def standalone? : List (String × String) → Option Bool
  | [] => some false
  | [("standalone", "yes")] => some true
  | [("standalone", "no")] => some false
  | _ => none

/-- The settings of the first line: a version, and then an encoding and whether the document
stands alone. -/
def checkSettings : List (String × String) → Option Bool
  | ("version", _) :: ("encoding", name) :: rest =>
    if isEncodingName name then standalone? rest else none
  | ("version", _) :: rest => standalone? rest
  | _ => none

/-- The first line, if there is one: whether the document stands alone, and what follows. -/
def readVersion (cs : List Char) : Option (Bool × List Char) :=
  match after? "<?xml" cs with
  | none => some (false, cs)
  | some rest =>
    if rest.head?.any isNameChar then some (false, cs)
    else do
      let (body, rest) ← splitAt? ['?', '>'] rest
      let settings ← versionSettings (body.length + 1) body
      let standalone ← checkSettings settings
      some (standalone, rest)

/-- What follows spaces, comments and instructions. -/
def skipMisc : Nat → List Char → Option (List Char)
  | 0, _ => none
  | fuel + 1, cs =>
    match cs.dropWhile isSpace with
    | '<' :: '!' :: '-' :: '-' :: rest => do
      let rest ← skipComment rest
      skipMisc fuel rest
    | '<' :: '?' :: rest => do
      let rest ← skipInstruction rest
      skipMisc fuel rest
    | rest => some rest

/-- The declarations in front of the element, and what follows them. -/
def readDeclarations (standalone : Bool) (cs : List Char) : Option (Declarations × List Char) := do
  let rest ← skipMisc (cs.length + 1) cs
  match after? "<!DOCTYPE" rest with
  | some rest => Doctype.read standalone rest
  | none => some (.empty, rest)

/-- The element of a document. -/
def read (s : String) : Option Element := do
  let cs := dropOrderMark (unifyLineEnds s.toList)
  if cs.all isXmlChar then
    let (standalone, rest) ← readVersion cs
    let (declarations, rest) ← readDeclarations standalone rest
    let items ← items rest
    Forest.root? declarations items
  else none

end Bellows.Xml.Document
