import Bellows.Xml.Markup

/-!
What a document declares about itself before its first element: entities that stand for text, and
the attributes of elements with their defaults.
-/
namespace Bellows.Xml

/-- What is declared for a name of an entity: its text, or that the text is elsewhere. -/
inductive Entity
  | inner (replacement : List Char)
  | outer
  deriving DecidableEq, Repr

/-- A declared attribute of an element. In the value of one that holds names, blanks only separate
these. -/
structure AttributeRule where
  element : String
  name : Name
  isCharacterData : Bool
  value : Option String
  deriving DecidableEq, Repr

structure Declarations where
  entities : List (String × Entity)
  rules : List AttributeRule
  /-- Whether declarations may be missing, because they are elsewhere. -/
  incomplete : Bool
  deriving DecidableEq, Repr

namespace Declarations

/-- A document that declares nothing. -/
def empty : Declarations := ⟨[], [], false⟩

/-- The rules for the attributes of an element. -/
def rulesFor (d : Declarations) (element : Name) : List AttributeRule :=
  d.rules.filter fun r => r.element = element.text

/-- The first rule for an attribute. -/
def rule? (d : Declarations) (element name : Name) : Option AttributeRule :=
  (d.rulesFor element).find? fun r => r.name = name

/-- The characters that some pieces of a value stand for. The number bounds how deeply entities may
refer to each other; an unknown one is left out if declarations may be missing. -/
def expand (d : Declarations) : Nat → List Piece → Option (List Char)
  | _, [] => some []
  | depth, .char c :: rest => (expand d depth rest).map (c :: ·)
  | 0, .entity _ :: _ => none
  | depth + 1, .entity name :: rest =>
    match d.entities.lookup name with
    | some (.inner text) => do
      let pieces ← valuePieces (text.length + 1) text
      let front ← expand d depth pieces
      let back ← expand d (depth + 1) rest
      some (front ++ back)
    | some .outer => none
    | none => if d.incomplete then expand d (depth + 1) rest else none
termination_by depth pieces => (depth, pieces.length)

/-- The bound on the depth of entities that do not refer to themselves. -/
def depth (d : Declarations) : Nat := d.entities.length + 1

/-- Words of a text with single blanks between them. -/
def words (cs : List Char) : List Char :=
  (String.intercalate " "
    (((String.ofList cs).splitOn " ").filter fun word => !word.isEmpty)).toList

/-- The value of an attribute as its rule has it. -/
def normalize (isCharacterData : Bool) (cs : List Char) : String :=
  String.ofList (if isCharacterData then cs else words cs)

/-- The value of an attribute. -/
def value? (d : Declarations) (element name : Name) (pieces : List Piece) : Option String := do
  let cs ← d.expand d.depth pieces
  some (normalize (((d.rule? element name).map AttributeRule.isCharacterData).getD true) cs)

/-- The attributes of an element: those that it has, and the defaults of others. -/
def attributes? (d : Declarations) (element : Name) (written : List (Name × List Piece)) :
    Option (List (Name × String)) := do
  let own ← written.mapM fun (name, pieces) => (d.value? element name pieces).map (name, ·)
  let defaults := (d.rulesFor element).filterMap fun r =>
    if (own.map Prod.fst).contains r.name then none else r.value.map (r.name, ·)
  some (own ++ defaults)

end Declarations
end Bellows.Xml
