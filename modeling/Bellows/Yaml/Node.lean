import Bellows.Yaml.Token

/-!
The nodes of a document: scalars, sequences and mappings, each with the tag that it is given. An
alias stands for the node with its anchor.
-/
namespace Bellows.Yaml

/-- The tag of a node: written out, or none. For a scalar without one it matters whether it is
plain. -/
inductive Tag
  | given (name : String)
  | plain
  | quoted
  deriving DecidableEq, Repr

inductive Node
  | scalar (tag : Tag) (text : String)
  | sequence (tag : Tag) (items : List Node)
  | mapping (tag : Tag) (entries : List (Node × Node))

/-- A scalar that is left out. -/
def Node.empty : Node := .scalar .plain ""

/-- The handles of tags that every document has. -/
def standardHandles : List (String × String) := [("!", "!"), ("!!", "tag:yaml.org,2002:")]

/-- The tokens that are still to come, the anchors that were met, and the handles of tags. -/
structure Build where
  tokens : List Token
  anchors : List (String × Node)
  handles : List (String × String)

namespace Build

/-- A reader takes tokens off the front, or finds them in a wrong order. -/
abbrev Reader (α : Type) := StateT Build Option α

def peek : Reader (Option Token) := do
  let b ← get
  pure b.tokens.head?

/-- The next token is passed. -/
def pass : Reader Unit := modify fun b => { b with tokens := b.tokens.drop 1 }

/-- Whether the next token is one of some. -/
def isNext (ts : List Token) : Reader Bool := do
  let t ← peek
  pure (t.any ts.contains)

/-- The next token is passed if it is this one. -/
def passIf (t : Token) : Reader Bool := do
  let found ← isNext [t]
  if found then pass
  pure found

/-- The full name of a tag. -/
def fullName (tag : WrittenTag) : Reader String := do
  let b ← get
  match tag.handle with
  | none => pure tag.suffix
  | some handle =>
    match b.handles.lookup handle with
    | some uri => pure (uri ++ tag.suffix)
    | none => failure

/-- A tag at a place. -/
def tag? : Reader (Option String) := do
  match ← peek with
  | some (.tag tag) =>
    pass
    some <$> fullName tag
  | _ => pure none

/-- An anchor at a place. -/
def anchor? : Reader (Option String) := do
  match ← peek with
  | some (.anchor name) =>
    pass
    pure (some name)
  | _ => pure none

/-- The anchor and the tag of a node, in either order. -/
def properties : Reader (Option String × Option String) := do
  let anchor ← anchor?
  let tag ← tag?
  match anchor with
  | some _ => pure (anchor, tag)
  | none =>
    let anchor ← anchor?
    pure (anchor, tag)

/-- The tag of a scalar; a single exclamation mark says that it counts as plain. -/
def scalarTag (plain : Bool) (tag : Option String) : Tag :=
  match tag with
  | some name => if name = "!" then .plain else .given name
  | none => if plain then .plain else .quoted

/-- The tag of a collection. -/
def collectionTag (tag : Option String) : Tag :=
  match tag with
  | some name => if name = "!" then .quoted else .given name
  | none => .quoted

/-- An anchor may not be met twice; until its node is complete it stands for an empty one. -/
def declare (anchor : Option String) : Reader Unit := do
  match anchor with
  | none => pure ()
  | some name =>
    let b ← get
    if (b.anchors.lookup name).isSome then failure
    else set { b with anchors := (name, Node.empty) :: b.anchors }

/-- The node of an anchor. -/
def define (anchor : Option String) (n : Node) : Reader Node := do
  match anchor with
  | none => pure n
  | some name =>
    modify fun b => { b with anchors := (name, n) :: b.anchors }
    pure n

/-- The node of an alias. -/
def resolve (name : String) : Reader Node := do
  let b ← get
  match b.anchors.lookup name with
  | some n => pure n
  | none => failure

/-- Where a node stands: between brackets, in a block, or in a block of a mapping, where a
sequence may be as deep as the keys. -/
inductive Place
  | flow
  | block
  | entry
  deriving DecidableEq, Repr

/-- The tokens behind a key or a colon in a block that show that nothing stands there. -/
def blockStops : List Token := [.key, .value, .blockEnd]

mutual

/-- A node. -/
def node (place : Place) : Nat → Reader Node
  | 0 => failure
  | fuel + 1 => do
    match ← peek with
    | some (.alias name) =>
      pass
      resolve name
    | _ =>
      let (anchor, tag) ← properties
      declare anchor
      let n ← content place anchor.isSome tag fuel
      define anchor n

/-- What a node is behind its properties. -/
def content (place : Place) (anchored : Bool) (tag : Option String) : Nat → Reader Node
  | 0 => failure
  | fuel + 1 => do
    match ← peek with
    | some (.scalar text plain) =>
      pass
      pure (.scalar (scalarTag plain tag) text)
    | some .openBracket =>
      pass
      let items ← flowItems true fuel
      pure (.sequence (collectionTag tag) items)
    | some .openBrace =>
      pass
      let entries ← flowEntries true fuel
      pure (.mapping (collectionTag tag) entries)
    | some .entry =>
      if place = .entry then
        let items ← looseItems fuel
        pure (.sequence (collectionTag tag) items)
      else absent anchored tag
    | some .sequenceStart =>
      if place = .flow then absent anchored tag
      else
        pass
        let items ← blockItems fuel
        pure (.sequence (collectionTag tag) items)
    | some .mappingStart =>
      if place = .flow then absent anchored tag
      else
        pass
        let entries ← blockEntries fuel
        pure (.mapping (collectionTag tag) entries)
    | _ => absent anchored tag

/-- A node with properties alone is an empty scalar. -/
def absent (anchored : Bool) (tag : Option String) : Reader Node :=
  if anchored || tag.isSome then pure (.scalar (scalarTag true tag) "") else failure

/-- A node, or an empty scalar in front of some tokens. -/
def nodeUnless (stops : List Token) (place : Place) : Nat → Reader Node
  | 0 => failure
  | fuel + 1 => do
    if ← isNext stops then pure .empty else node place fuel

/-- The items of a block of a sequence, up to its end. -/
def blockItems : Nat → Reader (List Node)
  | 0 => failure
  | fuel + 1 => do
    if ← passIf .entry then
      let n ← nodeUnless [.entry, .blockEnd] .block fuel
      let more ← blockItems fuel
      pure (n :: more)
    else if ← passIf .blockEnd then pure []
    else failure

/-- The items of a sequence that is as deep as the keys around it. -/
def looseItems : Nat → Reader (List Node)
  | 0 => failure
  | fuel + 1 => do
    if ← passIf .entry then
      let n ← nodeUnless [.entry, .key, .value, .blockEnd] .block fuel
      let more ← looseItems fuel
      pure (n :: more)
    else pure []

/-- The entries of a block of a mapping, up to its end. -/
def blockEntries : Nat → Reader (List (Node × Node))
  | 0 => failure
  | fuel + 1 => do
    if ← passIf .key then
      let k ← nodeUnless blockStops .entry fuel
      let v ← if ← passIf .value then nodeUnless blockStops .entry fuel else pure .empty
      let more ← blockEntries fuel
      pure ((k, v) :: more)
    else if ← passIf .blockEnd then pure []
    else failure

/-- The value of an entry between brackets, up to a comma or the closing one. -/
def flowValue (closing : Token) : Nat → Reader Node
  | 0 => failure
  | fuel + 1 => do
    if ← passIf .value then nodeUnless [.comma, closing] .flow fuel else pure .empty

/-- The items of a sequence between brackets. An entry of a mapping may stand there alone. -/
def flowItems (first : Bool) : Nat → Reader (List Node)
  | 0 => failure
  | fuel + 1 => do
    if ← passIf .closeBracket then pure []
    else
      if !first then
        if !(← passIf .comma) then failure
      if ← passIf .closeBracket then pure []
      else if ← passIf .key then
        let k ← nodeUnless [.value, .comma, .closeBracket] .flow fuel
        let v ← flowValue .closeBracket fuel
        let more ← flowItems false fuel
        pure (.mapping .quoted [(k, v)] :: more)
      else
        let n ← node .flow fuel
        let more ← flowItems false fuel
        pure (n :: more)

/-- The entries of a mapping between braces; a node without a colon is a key without a value. -/
def flowEntries (first : Bool) : Nat → Reader (List (Node × Node))
  | 0 => failure
  | fuel + 1 => do
    if ← passIf .closeBrace then pure []
    else
      if !first then
        if !(← passIf .comma) then failure
      if ← passIf .closeBrace then pure []
      else if ← passIf .key then
        let k ← nodeUnless [.value, .comma, .closeBrace] .flow fuel
        let v ← flowValue .closeBrace fuel
        let more ← flowEntries false fuel
        pure ((k, v) :: more)
      else
        let k ← node .flow fuel
        let more ← flowEntries false fuel
        pure ((k, .empty) :: more)

end

/-- Directives in front of a document: at most one version, which has to be a first one, and each
handle once. -/
def directives (version : Bool) : Nat → Reader Unit
  | 0 => failure
  | fuel + 1 => do
    match ← peek with
    | some (.version major) =>
      if version || major ≠ 1 then failure
      pass
      directives true fuel
    | some (.handle handle uri) =>
      let b ← get
      if (b.handles.lookup handle).isSome then failure
      set { b with handles := (handle, uri) :: b.handles, tokens := b.tokens.drop 1 }
      directives version fuel
    | some .directive =>
      pass
      directives version fuel
    | _ => pure ()

/-- Markers of the end of a document are passed. -/
def passEnds : Nat → Reader Unit
  | 0 => pure ()
  | fuel + 1 => do
    if ← passIf .documentEnd then passEnds fuel

/-- A document behind the marker of its start. -/
def marked (fuel : Nat) : Reader Node := do
  directives false fuel
  modify fun b => { b with handles := b.handles ++ standardHandles }
  if !(← passIf .documentStart) then failure
  match ← peek with
  | none => pure .empty
  | some t =>
    let isOver := match t with
      | .version _ | .handle .. | .directive | .documentStart | .documentEnd => true
      | _ => false
    if isOver then pure .empty else node .block fuel

/-- The one document of all tokens; there may be none. -/
def document (fuel : Nat) : Reader (Option Node) := do
  match ← peek with
  | none => pure none
  | some t =>
    let isMarked := match t with
      | .version _ | .handle .. | .directive | .documentStart => true
      | _ => false
    let n ← if isMarked then marked fuel else do
      modify fun b => { b with handles := standardHandles }
      node .block fuel
    passEnds fuel
    if (← peek).isSome then failure
    pure (some n)

end Build

/-- The node of the document in a text, if there is one. -/
def read? (cs : List Char) : Except Fault (Option Node) := do
  let ts ← tokens cs
  match (Build.document (4 * ts.length + 8)).run ⟨ts, [], []⟩ with
  | some (n, _) => .ok n
  | none => .error .malformed

end Bellows.Yaml
