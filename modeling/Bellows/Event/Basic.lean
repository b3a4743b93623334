import Bellows.Binary64.Basic
import Bellows.Score.Basic

/-!
Events: from a moment on, a port asks the pump for an action.
-/
namespace Bellows

/-- What a port can ask for. -/
inductive Action
  | inflate
  | release
  | noChange
  | trillInflate
  | trillRelease
  deriving DecidableEq, Repr

namespace Action

def all : List Action := [inflate, release, noChange, trillInflate, trillRelease]

/-- The word for an action in messages. -/
def word : Action → String
  | inflate => "inflate"
  | release => "release"
  | noChange => "no-change"
  | trillInflate => "trill-inflate"
  | trillRelease => "trill-release"

def ofWord? (s : String) : Option Action := all.find? fun a => a.word = s

/-- Whether an action pumps air in. -/
def inflates : Action → Bool
  | inflate | trillInflate => true
  | _ => false

end Action

/-- An action from a time in milliseconds on, with the measure and the note that it comes from; an
event that comes from no note is the end of a part or a stand-in for one. -/
structure Event where
  start : Binary64
  action : Action
  dynamic : Dynamic
  measure : Int
  note : Option Nat
  deriving DecidableEq

/-- A port that was never asked to do anything. -/
def Event.idle : Event := ⟨.zero, .noChange, .ppp, 0, none⟩

/-- The same event at another time. -/
def Event.at (e : Event) (start : Binary64) : Event := { e with start }

end Bellows
