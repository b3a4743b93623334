import Bellows.Axis.Basic

/-!
Events put onto an axis. An event lands on the last tick at or before its start, or on the first
tick if there is none; of events on one tick the last in the list holds, and it holds until the
next tick with an event.
-/
namespace Bellows.Axis

/-- The first index from `lo` up to `hi` at which a predicate fails, if it fails from there on. -/
def bisect (holds : Nat → Bool) (lo hi : Nat) : Nat :=
  if h : lo < hi then
    let mid := lo + (hi - lo) / 2
    if holds mid then bisect holds (mid + 1) hi else bisect holds lo mid
  else lo
termination_by hi - lo
decreasing_by all_goals omega

/-- What a search leaves to the next one: its key, and the bounds at which it ended. -/
structure Bounds where
  key : Binary64
  place : Nat

namespace Bounds

/-- Where a search for a key begins. A key not below the one before cannot be found further left;
a smaller one is not found further right than one place beyond it. -/
def range (size : Nat) (b : Bounds) (key : Binary64) : Nat × Nat :=
  if b.key.sortsBefore key then (b.place, size) else (0, min (b.place + 1) size)

end Bounds

/-- How many ticks are at or before each of some times, on an axis of sorted ticks. -/
def countsFrom (ticks : Array Binary64) (b : Bounds) : List Binary64 → List Nat
  | [] => []
  | t :: ts =>
    let (lo, hi) := b.range ticks.size t
    let place := bisect (fun k => (ticks[k]?.getD .nan).sortsBefore t) lo hi
    place :: countsFrom ticks ⟨t, place⟩ ts

/-- The ticks that some times land on. -/
def landings (ticks : Array Binary64) (times : List Binary64) : List Nat :=
  match times with
  | [] => []
  | t :: _ => (countsFrom ticks ⟨t, 0⟩ times).map (· - 1)

/-- The last event that lands on each tick. -/
def slots (ticks : Array Binary64) (events : List Event) : Array (Option Event) :=
  ((landings ticks (events.map Event.start)).zip events).foldl
    (fun slots landed => slots.setIfInBounds landed.1 (some landed.2))
    (Array.replicate ticks.size none)

/-- At each tick the event that landed there, or the one that held before it. -/
def carry (current : Event) : List (Binary64 × Option Event) → List Event
  | [] => []
  | (tick, slot) :: rest =>
    let holding := slot.getD current
    holding.at tick :: carry holding rest

/-- The event that holds at each tick of an axis. -/
def resample (events : List Event) (ticks : List Binary64) : List Event :=
  carry .idle (ticks.zip (slots ticks.toArray events).toList)

end Bellows.Axis
