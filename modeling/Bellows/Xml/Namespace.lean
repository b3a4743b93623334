import Bellows.Xml.Name

/-!
Name spaces: attributes of an element bind prefixes to name spaces for it and all below it, and the
names of elements and attributes are expanded by these bindings.
-/
namespace Bellows.Xml

/-- A prefix, or `none` for names without one, and the name space that it is bound to. -/
structure Binding where
  space : Option String
  uri : String
  deriving DecidableEq, Repr

/-- The bindings in force, the innermost first. -/
abbrev Scope := List Binding

namespace Scope

def xmlUri : String := "http://www.w3.org/XML/1998/namespace"

def xmlnsUri : String := "http://www.w3.org/2000/xmlns/"

/-- Outside of all elements only the reserved prefix is bound. -/
def outermost : Scope := [⟨some "xml", xmlUri⟩]

/-- The name space that a prefix is bound to. -/
def uri? (scope : Scope) (space : Option String) : Option String :=
  (scope.find? fun b => b.space = space).map Binding.uri

/-- A name with its name space in braces in front of it, if it has one. -/
def expanded (uri base : String) : String :=
  if uri.isEmpty then base else "\x7b" ++ uri ++ "\x7d" ++ base

/-- The expanded name of an element. -/
def element? (scope : Scope) (n : Name) : Option String :=
  match n.space with
  | none => some (expanded ((scope.uri? none).getD "") n.base)
  | some space => (scope.uri? (some space)).map fun uri => expanded uri n.base

/-- The expanded name of an attribute; without a prefix it is in no name space. -/
def attribute? (scope : Scope) (n : Name) : Option String :=
  match n.space with
  | none => some n.base
  | some space => (scope.uri? (some space)).map fun uri => expanded uri n.base

end Scope

namespace Name

/-- The prefix that an attribute of this name binds, if it binds one. -/
def bound? (n : Name) : Option (Option String) :=
  match n.space with
  | none => if n.base = "xmlns" then some none else none
  | some space => if space = "xmlns" then some (some n.base) else none

end Name

/-- Whether a prefix may be bound to a name space. Reserved ones are only bound to each other, and
a name space has no closing brace. -/
def Binding.isAllowed (b : Binding) : Bool :=
  !(b.uri.isEmpty && b.space.isSome) && b.space ≠ some "xmlns" && b.uri ≠ Scope.xmlnsUri
    && decide (b.space = some "xml") == decide (b.uri = Scope.xmlUri) && !b.uri.contains '\x7d'

/-- The bindings among the attributes of an element, put in front of those in force. -/
def Scope.extend (scope : Scope) : List (Name × String) → Option Scope
  | [] => some scope
  | (name, value) :: rest =>
    match name.bound? with
    | none => extend scope rest
    | some space =>
      let b : Binding := ⟨space, value⟩
      if b.isAllowed then extend (b :: scope) rest else none

/-- The attributes of an element that bind nothing, under expanded names. -/
def Scope.attributes? (scope : Scope) (attributes : List (Name × String)) :
    Option (List (String × String)) :=
  (attributes.filter fun a => a.1.bound?.isNone).mapM fun (name, value) =>
    (scope.attribute? name).map (·, value)

end Bellows.Xml
