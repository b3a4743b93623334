/-!
Paths: names with strokes between them. A path is kept in normal form, in which strokes are not
doubled and no name stands for the place where it is.
-/
namespace Bellows

/-- A path in normal form. -/
structure Path where
  /-- The strokes in front of the first name. -/
  root : String
  names : List String
  deriving DecidableEq, Repr

namespace Path

/-- Strokes at the start of a path: two of them stay two, any other number counts as one. -/
def rootOf (cs : List Char) : String :=
  match (cs.takeWhile (· == '/')).length with
  | 0 => ""
  | 2 => "//"
  | _ => "/"

/-- The normal form of a path. -/
def ofText (s : String) : Path :=
  ⟨rootOf s.toList, (s.splitOn "/").filter fun name => name ≠ "" && name ≠ "."⟩

/-- A path without any name stands for the place where it is. -/
def text (p : Path) : String :=
  let joined := p.root ++ String.intercalate "/" p.names
  if joined.isEmpty then "." else joined

/-- The last name. -/
def name (p : Path) : String := p.names.getLast?.getD ""

/-- A name in front of its last point, and from there on. A point at either end divides nothing. -/
def divide (name : List Char) : List Char × List Char :=
  let behind := name.reverse.takeWhile (· != '.')
  let place := name.length - (behind.length + 1)
  if behind.isEmpty || place = 0 then (name, []) else (name.take place, name.drop place)

/-- The last name without its extension. -/
def stem (p : Path) : String := String.ofList (divide p.name.toList).1

/-- Whether a text can be a name. -/
def isName (s : String) : Bool := s ≠ "" && s ≠ "." && !s.toList.contains '/'

/-- Another name in place of the last one. -/
def withName (p : Path) (name : String) : Path := ⟨p.root, p.names.dropLast ++ [name]⟩

/-- Another extension in place of that of the last name. -/
def withExtension (p : Path) (extension : String) : Path := p.withName (p.stem ++ extension)

end Path
end Bellows
