import Bellows.Event.Basic

/-!
The time axis that port timelines share: the start times of all their events in order, where of
times that follow each other closely only the first is kept.
-/
namespace Bellows.Axis

/-- Starts that follow the one before by no more than this many milliseconds are one tick. -/
def defaultTolerance : Binary64 := .ofNat 1

/-- The times that come more than a tolerance after the time in front of them, kept or not. -/
def gapsFrom (tolerance previous : Binary64) : List Binary64 → List Binary64
  | [] => []
  | t :: ts =>
    if tolerance.lt (t.sub previous) then t :: gapsFrom tolerance t ts else gapsFrom tolerance t ts

/-- The first of some sorted times and those behind a gap. -/
def runHeads (tolerance : Binary64) : List Binary64 → List Binary64
  | [] => []
  | t :: ts => t :: gapsFrom tolerance t ts

/-- The axis of some times in any order. -/
def ofTimes (tolerance : Binary64) (times : List Binary64) : List Binary64 :=
  runHeads tolerance (times.mergeSort Binary64.sortsBefore)

/-- The axis of some lists of events. -/
def ofEvents (tolerance : Binary64) (events : List (List Event)) : List Binary64 :=
  ofTimes tolerance (events.flatten.map Event.start)

end Bellows.Axis
