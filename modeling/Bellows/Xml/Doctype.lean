import Bellows.Xml.Declarations

/-!
The type declaration of a document. Entities and attributes that are declared inside of it are
kept; what is said elsewhere is not looked up, and what it says about the content of elements is
only checked for its form.
-/
namespace Bellows.Xml.Doctype

/-- What has been declared so far, and whether further declarations are still heeded: after a
reference to declarations elsewhere they are not, unless the document stands alone. -/
structure State where
  declarations : Declarations
  heeded : Bool

/-- A character that must follow, and what follows it. -/
def expect (c : Char) : List Char → Option (List Char)
  | [] => none
  | d :: rest => if c = d then some rest else none

/-- What follows spaces. -/
def trim (cs : List Char) : List Char := cs.dropWhile isSpace

/-- The end of a declaration. -/
def close (cs : List Char) : Option (List Char) := expect '>' (trim cs)

/-- A word, with a space behind it. -/
def keyword (word : String) (cs : List Char) : Option (List Char) := do
  let rest ← after? word cs
  skipSpace rest

/-- A text between quotation marks, with a space or the end of its part behind it. -/
def readLiteral : Reader (List Char) := fun cs => do
  let (text, rest) ← readQuoted cs
  match rest with
  | [] => none
  | c :: _ => if isSpace c || c = '>' || c = '%' || c = '[' then some (text, rest) else none

/-- The characters of a public identifier. -/
def isPublicChar (c : Char) : Bool :=
  c.isAlphanum || " \n-'()+,./:=?;!*#@$_%".toList.contains c

/-- Where something outside of the document is to be found; for a notation, a public identifier
alone is enough. -/
def skipExternal (publicOnly : Bool) (cs : List Char) : Option (List Char) :=
  match keyword "SYSTEM" cs, keyword "PUBLIC" cs with
  | some rest, _ => (readLiteral rest).map Prod.snd
  | none, some rest => do
    let (identifier, rest) ← readLiteral rest
    if identifier.all isPublicChar then
      match skipSpace rest with
      | some (q :: more) =>
        if q = '"' || q = '\'' then (readLiteral (q :: more)).map Prod.snd
        else if publicOnly then some rest else none
      | _ => if publicOnly then some rest else none
    else none
  | none, none => none

/-- The text of an entity: characters for the references to them, other references as they stand. -/
def entityText : Nat → List Char → Option (List Char)
  | 0, _ => none
  | fuel + 1, cs => match cs with
    | [] => some []
    | '%' :: _ => none
    | '&' :: '#' :: rest => do
      let (piece, rest) ← readReference ('#' :: rest)
      match piece with
      | .char c => (entityText fuel rest).map (c :: ·)
      | .entity _ => none
    | '&' :: rest => do
      let (name, rest) ← readName rest
      let rest ← expect ';' rest
      (entityText fuel rest).map fun more => '&' :: (name.toList ++ ';' :: more)
    | c :: rest => (entityText fuel rest).map (c :: ·)

namespace State

/-- The first declaration of an entity holds, and the standard ones stay what they are. -/
def addEntity (s : State) (name : String) (e : Entity) : State :=
  if s.heeded && (standardEntities.lookup name).isNone
      && (s.declarations.entities.lookup name).isNone then
    { s with declarations :=
      { s.declarations with entities := s.declarations.entities ++ [(name, e)] } }
  else s

/-- A rule for an attribute. -/
def addRule (s : State) (r : AttributeRule) : State :=
  if s.heeded && !(s.declarations.rules.any fun q => q.element = r.element && q.name = r.name) then
    { s with declarations := { s.declarations with rules := s.declarations.rules ++ [r] } }
  else s

/-- Declarations may be missing from here on. -/
def addOutside (standalone : Bool) (s : State) : State :=
  ⟨{ s.declarations with incomplete := !standalone }, standalone⟩

end State

/-- The notation of an entity that is no text, if it has one. -/
def skipUnparsed (cs : List Char) : Option (List Char) :=
  match (skipSpace cs).bind (keyword "NDATA") with
  | some rest => (readName rest).map Prod.snd
  | none => some cs

/-- The definition of an entity: its text, or where that is to be found. A text that is not heeded
is not looked into. -/
def readDefinition (s : State) (parameter : Bool) : Reader Entity := fun cs =>
  match readLiteral cs with
  | some (raw, rest) =>
    if s.heeded then (entityText (raw.length + 1) raw).map fun text => (.inner text, rest)
    else some (.outer, rest)
  | none => do
    let rest ← skipExternal false cs
    let rest ← if parameter then some rest else skipUnparsed rest
    some (.outer, rest)

/-- An entity: its name and its definition. Parameters are of no use inside a document. -/
def readEntity (s : State) (cs : List Char) : Option (State × List Char) := do
  let rest ← skipSpace cs
  let parameter := rest.head? == some '%'
  let rest ← if parameter then skipSpace (rest.drop 1) else some rest
  let (name, rest) ← readName rest
  let rest ← skipSpace rest
  let (entity, rest) ← readDefinition s parameter rest
  let rest ← close rest
  some (if parameter then s else s.addEntity name entity, rest)

/-- A notation: its name, and where it is to be found. -/
def skipNotationRule (cs : List Char) : Option (List Char) := do
  let rest ← skipSpace cs
  let (_, rest) ← readName rest
  let rest ← skipSpace rest
  let rest ← skipExternal true rest
  close rest

/-- Names in parentheses with bars between them; the number bounds how many. -/
def skipChoices (readOne : Reader String) : Nat → List Char → Option (List Char)
  | 0, _ => none
  | fuel + 1, cs => do
    let (_, rest) ← readOne (trim cs)
    match trim rest with
    | '|' :: rest => skipChoices readOne fuel rest
    | ')' :: rest => some rest
    | _ => none

/-- A name that may begin like the rest of a name does. -/
def readToken : Reader String := fun cs =>
  let (token, rest) := cs.span fun c => isNameChar c || c = ':'
  if token.isEmpty then none else some (String.ofList token, rest)

/-- The names of the types of attributes, those of characters first. -/
def typeNames : List String :=
  ["CDATA", "IDREFS", "IDREF", "ID", "ENTITIES", "ENTITY", "NMTOKENS", "NMTOKEN"]

/-- The type of an attribute: whether its values are characters. -/
def readType : Reader Bool := fun cs =>
  match cs with
  | '(' :: rest => (skipChoices readToken (rest.length + 1) rest).map (false, ·)
  | cs =>
    match keyword "NOTATION" cs with
    | some ('(' :: rest) => (skipChoices readName (rest.length + 1) rest).map (false, ·)
    | some _ => none
    | none => do
      let (name, rest) ← readName cs
      if typeNames.contains name then some (name = "CDATA", rest) else none

/-- The default of an attribute, if it has one. -/
def readDefault (s : State) (isCharacterData : Bool) : Reader (Option String) := fun cs =>
  match after? "#REQUIRED" cs, after? "#IMPLIED" cs with
  | some rest, _ | none, some rest => some (none, rest)
  | none, none => do
    let rest := (keyword "#FIXED" cs).getD cs
    let (raw, rest) ← readLiteral rest
    if s.heeded then
      let pieces ← valuePieces (raw.length + 1) raw
      let value ← s.declarations.expand s.declarations.depth pieces
      some (some (Declarations.normalize isCharacterData value), rest)
    else some (none, rest)

/-- The attributes of an element, each with a name, a type and a default. -/
def readRules (element : Name) : Nat → State → List Char → Option (State × List Char)
  | 0, _, _ => none
  | fuel + 1, s, cs =>
    match close cs with
    | some rest => some (s, rest)
    | none => do
      let rest ← skipSpace cs
      let (name, rest) ← readQualified rest
      let rest ← skipSpace rest
      let (isCharacterData, rest) ← readType rest
      let rest ← skipSpace rest
      let (value, rest) ← readDefault s isCharacterData rest
      readRules element fuel (s.addRule ⟨element.text, name, isCharacterData, value⟩) rest

/-- What may follow a particle of a content model. -/
def skipRepeat : List Char → List Char
  | c :: rest => if c = '?' || c = '*' || c = '+' then rest else c :: rest
  | [] => []

mutual

/-- A particle: a name or a group, either with a sign for how often it stands. -/
def skipParticle : Nat → List Char → Option (List Char)
  | 0, _ => none
  | fuel + 1, cs => match cs with
    | '(' :: rest => skipGroup fuel none rest
    | cs => (readQualified cs).map fun (_, rest) => skipRepeat rest

/-- The particles of a group after its parenthesis, with the same sign between all of them. -/
def skipGroup : Nat → Option Char → List Char → Option (List Char)
  | 0, _, _ => none
  | fuel + 1, connector, cs => do
    let rest ← skipParticle fuel (trim cs)
    match trim rest with
    | ')' :: rest => some (skipRepeat rest)
    | c :: rest =>
      if (c = ',' || c = '|') && connector.getD c = c then skipGroup fuel (some c) rest else none
    | [] => none

end

/-- Names mixed with text, after the sign for text. -/
def skipMixed : Nat → Bool → List Char → Option (List Char)
  | 0, _, _ => none
  | fuel + 1, names, cs =>
    match trim cs with
    | ')' :: '*' :: rest => some rest
    | ')' :: rest => if names then none else some rest
    | '|' :: rest => do
      let (_, rest) ← readQualified (trim rest)
      skipMixed fuel true rest
    | _ => none

/-- The content model of an element. -/
def skipModel (cs : List Char) : Option (List Char) :=
  match after? "EMPTY" cs, after? "ANY" cs, cs with
  | some rest, _, _ | none, some rest, _ => some rest
  | none, none, '(' :: rest =>
    match after? "#PCDATA" (trim rest) with
    | some rest => skipMixed (rest.length + 1) false rest
    | none => skipGroup (2 * rest.length + 2) none rest
  | none, none, _ => none

/-- An element: its name and its content model. -/
def readElement (cs : List Char) : Option (List Char) := do
  let rest ← skipSpace cs
  let (_, rest) ← readQualified rest
  let rest ← skipSpace rest
  let rest ← skipModel rest
  close rest

/-- One declaration after its bracket and exclamation mark. -/
def readDeclaration (s : State) (cs : List Char) : Option (State × List Char) :=
  match after? "ENTITY" cs, after? "ATTLIST" cs, after? "ELEMENT" cs, after? "NOTATION" cs with
  | some rest, _, _, _ => readEntity s rest
  | none, some rest, _, _ => do
    let rest ← skipSpace rest
    let (element, rest) ← readQualified rest
    readRules element (rest.length + 1) s rest
  | none, none, some rest, _ => (readElement rest).map (s, ·)
  | none, none, none, some rest => (skipNotationRule rest).map (s, ·)
  | none, none, none, none => none

/-- The declarations between brackets, up to the closing one. -/
def readSubset (standalone : Bool) : Nat → State → List Char → Option (State × List Char)
  | 0, _, _ => none
  | fuel + 1, s, cs =>
    match trim cs with
    | ']' :: rest => some (s, rest)
    | '%' :: rest => do
      let (_, rest) ← readName rest
      let rest ← expect ';' rest
      readSubset standalone fuel (s.addOutside standalone) rest
    | '<' :: '!' :: '-' :: '-' :: rest => do
      let rest ← skipComment rest
      readSubset standalone fuel s rest
    | '<' :: '?' :: rest => do
      let rest ← skipInstruction rest
      readSubset standalone fuel s rest
    | '<' :: '!' :: rest => do
      let (s, rest) ← readDeclaration s rest
      readSubset standalone fuel s rest
    | _ => none

/-- A type declaration after its keyword: a name, where more declarations are to be found, and
declarations between brackets. -/
def read (standalone : Bool) : Reader Declarations := fun cs => do
  let rest ← skipSpace cs
  let (_, rest) ← readQualified rest
  let fresh : State := ⟨.empty, true⟩
  let (s, rest) ← match skipSpace rest with
    | some more => match skipExternal false more with
      | some rest => some (({ fresh with declarations :=
          { Declarations.empty with incomplete := !standalone } } : State), rest)
      | none => some (fresh, rest)
    | none => some (fresh, rest)
  match trim rest with
  | '>' :: rest => some (s.declarations, rest)
  | '[' :: rest => do
    let (s, rest) ← readSubset standalone (rest.length + 1) s rest
    let rest ← close rest
    some (s.declarations, rest)
  | _ => none

end Bellows.Xml.Doctype
