/-!
Elements of a document: a tag, attributes, the text in front of the first child, and the children.
-/
namespace Bellows.Xml

inductive Element
  | mk (tag : String) (attributes : List (String × String)) (text : String)
      (children : List Element)

namespace Element

instance : Inhabited Element := ⟨.mk "" [] "" []⟩

def tag : Element → String
  | mk tag _ _ _ => tag

def attributes : Element → List (String × String)
  | mk _ attributes _ _ => attributes

/-- The text in front of the first child. -/
def text : Element → String
  | mk _ _ text _ => text

def children : Element → List Element
  | mk _ _ _ children => children

/-- The value of an attribute. -/
def attribute? (name : String) (e : Element) : Option String := e.attributes.lookup name

mutual

/-- An element with a tag and those below it, in document order. -/
def withTag (tag : String) : Element → List Element
  | mk own attributes text children =>
    let below := amongWithTag tag children
    if own = tag then mk own attributes text children :: below else below

def amongWithTag (tag : String) : List Element → List Element
  | [] => []
  | e :: es => withTag tag e ++ amongWithTag tag es

end

/-- The children with a tag. -/
def childrenWith (tag : String) (e : Element) : List Element :=
  e.children.filter fun child => child.tag = tag

/-- The elements at the end of a path of tags. -/
def atPath (path : List String) (e : Element) : List Element :=
  path.foldl (fun es tag => es.flatMap (childrenWith tag)) [e]

/-- Whether there is an element at the end of a path. -/
def has (path : List String) (e : Element) : Bool := !(e.atPath path).isEmpty

/-- The first child with a tag. -/
def child? (tag : String) (e : Element) : Option Element :=
  e.children.find? fun child => child.tag = tag

/-- The text of the first child with a tag. -/
def childText? (tag : String) (e : Element) : Option String := (e.child? tag).map Element.text

end Element
end Bellows.Xml
