import Bellows.Value.Quantity
import Bellows.Value.Timestamp

/-!
Values of untyped documents: parameter files and schedule files before they are checked.
-/
namespace Bellows

/-- What a document can hold. The entries of a map keep the order in which their keys came first. -/
inductive Value
  | null
  | bool (b : Bool)
  | int (n : Int)
  | float (x : Binary64)
  | text (s : String)
  | list (items : List Value)
  | map (entries : List (Value × Value))
  | date (d : Date)
  | moment (m : Moment)
  | bytes (octets : List UInt8)
  | set (items : List Value)
  | tuple (items : List Value)

namespace Value

instance : Inhabited Value := ⟨.null⟩

/-- The number a value counts as. A logical value counts as one or zero. -/
def quantity? : Value → Option Quantity
  | .bool b => some (.whole (if b then 1 else 0))
  | .int n => some (.whole n)
  | .float x => some (.real x)
  | _ => none

mutual

/-- Whether two values are the same key: numbers by value, everything else by kind and content. -/
def sameKey : Value → Value → Bool
  | .null, .null => true
  | .text s, .text t => s = t
  | .date d, .date e => d = e
  | .moment m, .moment n => m = n
  | .bytes a, .bytes b => a = b
  | .tuple xs, .tuple ys => sameKeys xs ys
  | a, b => match a.quantity?, b.quantity? with
    | some p, some q => p.same q
    | _, _ => false

def sameKeys : List Value → List Value → Bool
  | [], [] => true
  | x :: xs, y :: ys => sameKey x y && sameKeys xs ys
  | _, _ => false

end

/-- A key that occurs again keeps its place and takes the new value. -/
def put (k v : Value) : List (Value × Value) → List (Value × Value)
  | [] => [(k, v)]
  | (k', v') :: rest => if sameKey k' k then (k', v) :: rest else (k', v') :: put k v rest

/-- The map of a list of entries in which keys may occur again. -/
def ofEntries (entries : List (Value × Value)) : Value :=
  .map (entries.foldl (fun es e => put e.1 e.2 es) [])

/-- The value of an entry with a text as its key. -/
def field? (name : String) : List (Value × Value) → Option Value
  | [] => none
  | (.text s, v) :: rest => if s = name then some v else field? name rest
  | _ :: rest => field? name rest

/-- The value of an entry, or null where there is none. -/
def field (name : String) (entries : List (Value × Value)) : Value :=
  (field? name entries).getD .null

/-- Whether a value counts as absent where a default may take its place. -/
def isEmpty : Value → Bool
  | .null => true
  | .bool b => !b
  | .int n => n = 0
  | .float x => x.same .zero
  | .text s => s.isEmpty
  | .list xs | .set xs | .tuple xs => xs.isEmpty
  | .map es => es.isEmpty
  | .bytes b => b.isEmpty
  | .date _ | .moment _ => false

/-- The name of a value's kind in messages. -/
def kind : Value → String
  | .null => "NoneType"
  | .bool _ => "bool"
  | .int _ => "int"
  | .float _ => "float"
  | .text _ => "str"
  | .list _ => "list"
  | .map _ => "dict"
  | .date _ => "datetime.date"
  | .moment _ => "datetime.datetime"
  | .bytes _ => "bytes"
  | .set _ => "set"
  | .tuple _ => "tuple"

/-- A map or list may not be a key. -/
def canBeKey : Value → Bool
  | .list _ | .map _ | .set _ => false
  | .tuple xs => canBeKeys xs
  | _ => true
where
  canBeKeys : List Value → Bool
    | [] => true
    | x :: xs => canBeKey x && canBeKeys xs

end Value
end Bellows
