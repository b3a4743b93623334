import Bellows.Text.Classes
import Bellows.Xml.Name

/-!
The type declaration of a document taken out of its text, so that nothing is ever looked up for
it. The first one that is complete goes; its opening alone is left where it stands.
-/
namespace Bellows.Xml

/-- What follows the end of a declaration, after its brackets. -/
def afterBrackets? (cs : List Char) : Option (List Char) :=
  match cs.dropWhile isBlank with
  | '>' :: rest => some rest
  | _ => none

/-- What follows a declaration, after its opening: characters other than brackets, then perhaps a
part in square brackets, then the end. -/
def afterDeclaration? (cs : List Char) : Option (List Char) :=
  match cs.dropWhile fun c => c ≠ '>' && c ≠ '[' with
  | '>' :: rest => some rest
  | '[' :: rest =>
    match rest.dropWhile (· ≠ ']') with
    | ']' :: rest => afterBrackets? rest
    | _ => none
  | _ => none

/-- The opening of a declaration; its letters may be large or small. -/
def declarationOpening : List Char := "<!DOCTYPE".toList

/-- What follows a declaration at the front of a text. -/
def declaration? (cs : List Char) : Option (List Char) :=
  if (cs.take declarationOpening.length).map Char.toUpper = declarationOpening then
    afterDeclaration? (cs.drop declarationOpening.length)
  else none

/-- A text without its first declaration, behind what was passed before; `none` if there is none. -/
def stripFrom (passed : List Char) : List Char → Option (List Char)
  | [] => none
  | c :: cs =>
    match declaration? (c :: cs) with
    | some rest => some (passed.reverse ++ rest)
    | none => stripFrom (c :: passed) cs

/-- A text without its first declaration. -/
def stripDoctype (s : String) : String :=
  match stripFrom [] s.toList with
  | some cs => String.ofList cs
  | none => s

end Bellows.Xml
