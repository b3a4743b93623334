import Bellows.Xml.Declarations
import Bellows.Xml.Element
import Bellows.Xml.Namespace

/-!
Items put together into a tree: every opening tag meets the closing tag of its name, and exactly
one element stands outside of all others.
-/
namespace Bellows.Xml

/-- An element that is still open, with the children that it has so far, the last one first. -/
structure Frame where
  name : Name
  scope : Scope
  tag : String
  attributes : List (String × String)
  text : List (List Char)
  children : List Element

/-- The open elements, the innermost first, and the outermost one when it is closed. -/
structure Forest where
  frames : List Frame
  root : Option Element

namespace Frame

/-- The element of a frame when it is closed. -/
def element (f : Frame) : Element :=
  .mk f.tag f.attributes (String.ofList f.text.reverse.flatten) f.children.reverse

/-- Characters count as text only in front of the first child. -/
def addText (f : Frame) (cs : List Char) : Frame :=
  if f.children.isEmpty then { f with text := cs :: f.text } else f

def addChild (f : Frame) (e : Element) : Frame := { f with children := e :: f.children }

end Frame

namespace Forest

/-- Nothing but the expectation of one element. -/
def start : Forest := ⟨[], none⟩

def scope (f : Forest) : Scope := ((f.frames.head?).map Frame.scope).getD .outermost

/-- Characters as they stand; outside of all elements there are only spaces. -/
def addText (f : Forest) (cs : List Char) : Option Forest :=
  match f.frames with
  | [] => if cs.all isSpace then some f else none
  | frame :: frames => some { f with frames := frame.addText cs :: frames }

/-- Characters from a section or a reference; there are none outside of all elements. -/
def addData (f : Forest) (cs : List Char) : Option Forest :=
  match f.frames with
  | [] => none
  | frame :: frames => some { f with frames := frame.addText cs :: frames }

/-- A closed element added to the one around it, or as the outermost one. -/
def addElement (f : Forest) (e : Element) : Option Forest :=
  match f.frames, f.root with
  | [], none => some { f with root := some e }
  | [], some _ => none
  | frame :: frames, _ => some { f with frames := frame.addChild e :: frames }

/-- A new frame for an element with its attributes. -/
def openFrame (scope : Scope) (name : Name) (attributes : List (Name × String)) : Option Frame := do
  let scope ← scope.extend attributes
  let tag ← scope.element? name
  let expanded ← scope.attributes? attributes
  if (expanded.map Prod.fst).Nodup then some ⟨name, scope, tag, expanded, [], []⟩ else none

/-- An opening tag. -/
def openTag (d : Declarations) (f : Forest) (name : Name) (written : List (Name × List Piece))
    (closed : Bool) : Option Forest :=
  if f.frames.isEmpty && f.root.isSome then none
  else if (written.map Prod.fst).Nodup then do
    let attributes ← d.attributes? name written
    let frame ← openFrame f.scope name attributes
    if closed then f.addElement frame.element else some { f with frames := frame :: f.frames }
  else none

/-- A closing tag, which names the innermost open element. -/
def closeTag (f : Forest) (name : Name) : Option Forest :=
  match f.frames with
  | [] => none
  | frame :: frames =>
    if frame.name = name then addElement { f with frames } frame.element else none

/-- An item that is no entity. -/
def addItem (d : Declarations) (f : Forest) : Item → Option Forest
  | .text cs => f.addText cs
  | .data cs => f.addData cs
  | .opening name attributes closed => f.openTag d name attributes closed
  | .closing name => f.closeTag name
  | .entity _ => none

/-- Items one after another; what an entity stands for closes what it opens and nothing else. The
number bounds how deeply entities may refer to each other. -/
def addItems (d : Declarations) : Nat → Nat → Forest → List Item → Option Forest
  | _, _, f, [] => some f
  | 0, _, _, .entity _ :: _ => none
  | depth + 1, floor, f, .entity name :: rest =>
    match d.entities.lookup name with
    | some (.inner text) => do
      if f.frames.isEmpty then none
      let inner ← items text
      let f' ← addItems d depth f.frames.length f inner
      if f'.frames.length = f.frames.length then addItems d (depth + 1) floor f' rest else none
    | _ => none
  | depth, floor, f, item :: rest => do
    let f' ← f.addItem d item
    if f'.frames.length < floor then none else addItems d depth floor f' rest
termination_by depth _ _ items => (depth, items.length)

/-- The one element of some items. -/
def root? (d : Declarations) (items : List Item) : Option Element := do
  let f ← addItems d d.depth 0 start items
  if f.frames.isEmpty then f.root else none

end Forest
end Bellows.Xml
