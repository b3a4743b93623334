import Bellows.Score.Basic
import Bellows.Value.Text

/-!
Loudness curves: the strength of the pump for each of the eight levels. A curve is given as eight
values in order, or as a map from levels in which the missing ones keep their default.
-/
namespace Bellows

/-- The strength of the pump at each level, one of 256 steps. -/
structure Curve where
  intensity : Dynamic → Fin 256

/-- Why values do not make a curve. -/
inductive CurveFault
  | wrongCount (count : Nat)
  | badIntensity (level : Dynamic) (value : Value)
  | unknownLevels (names : List String)
  /-- A key that names no level is no text. -/
  | keyNotText (kind : String)
  /-- Keys that name no level cannot be put in order. -/
  | keysNotComparable (lower upper : String)

namespace Curve

/-- The curve through eight strengths in order. -/
def ofList (levels : List (Fin 256)) : Curve := ⟨fun d => levels.getD d.level 0⟩

/-- The strengths in order. -/
def toList (c : Curve) : List (Fin 256) := Dynamic.all.map c.intensity

/-- The strengths where a curve does not say otherwise. -/
def defaultLevels : List (Fin 256) := [40, 70, 100, 130, 160, 190, 220, 255]

instance : Inhabited Curve := ⟨ofList defaultLevels⟩

theorem toList_ofList {levels : List (Fin 256)} (h : levels.length = 8) :
    (ofList levels).toList = levels := by
  match levels, h with
  | [_, _, _, _, _, _, _, _], _ => rfl

/-- A whole number from 0 to 255. -/
def readIntensity (d : Dynamic) (v : Value) : Except CurveFault (Fin 256) :=
  match v with
  | .int n => if h : 0 ≤ n ∧ n ≤ 255 then .ok ⟨n.toNat, by omega⟩ else .error (.badIntensity d v)
  | v => .error (.badIntensity d v)

/-- The curve through eight values in order. -/
def ofValues (vs : List Value) : Except CurveFault Curve :=
  if vs.length = 8 then do
    let levels ← (Dynamic.all.zip vs).mapM fun (d, v) => readIntensity d v
    .ok (ofList levels)
  else .error (.wrongCount vs.length)

/-- Whether a key is the mark of a level. -/
def isLevel : Value → Bool
  | .text s => (Dynamic.ofMark? s).isSome
  | _ => false

/-- The class of kinds within which keys can be put in order. -/
def orderClass : Value → String
  | .bool _ | .int _ | .float _ => "number"
  | v => v.kind

/-- The first two neighbours among keys that cannot be put in order. -/
def incomparable? : List Value → Option (Value × Value)
  | a :: b :: rest =>
    if orderClass a = orderClass b && orderClass a ≠ "NoneType" then incomparable? (b :: rest)
    else some (a, b)
  | _ => none

/-- The least of some numbers, or the first of some other keys. -/
def leastKey (first : Value) (others : List Value) : Value :=
  others.foldl (fun a b => match a.quantity?, b.quantity? with
    | some p, some q => if q.lt p then b else a
    | _, _ => a) first

/-- The texts among keys. -/
def texts (keys : List Value) : List String :=
  keys.filterMap fun
    | .text s => some s
    | _ => none

/-- What is wrong with keys that name no level. -/
def unknownFault (keys : List Value) : Option CurveFault :=
  match keys, incomparable? keys with
  | [], _ => none
  | _, some (a, b) => some (.keysNotComparable b.kind a.kind)
  | first :: others, none =>
    let names := texts keys
    if names.length = keys.length then
      some (.unknownLevels (names.mergeSort fun s t => decide (s ≤ t)))
    else some (.keyNotText (leastKey first others).kind)

/-- The curve of a map from levels to strengths; levels that it lacks keep their default. -/
def ofMap (entries : List (Value × Value)) : Except CurveFault Curve :=
  match unknownFault ((entries.map Prod.fst).filter fun k => !isLevel k) with
  | some fault => .error fault
  | none => ofValues ((Dynamic.all.zip defaultLevels).map fun (d, level) =>
      (Value.field? d.mark entries).getD (.int level.val))

end Curve

namespace CurveFault

def message : CurveFault → String
  | .wrongCount n => s!"dynamics curve needs 8 values, got {n}"
  | .badIntensity d v =>
    v.about s!"intensity for {d.mark} must be an integer 0-255, got {v.quoted}"
  | .unknownLevels names =>
    let joined := String.intercalate ", " names
    s!"unknown dynamics level(s): {joined}"
  | .keyNotText kind => s!"sequence item 0: expected str instance, {kind} found"
  | .keysNotComparable lower upper =>
    s!"'<' not supported between instances of '{lower}' and '{upper}'"

end CurveFault
end Bellows
