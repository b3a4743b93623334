import Bellows.Axis.Resampling
import Bellows.Command.Resolution

/-!
A role merged onto an axis: at every tick the states of the five ports are resolved into one
command, and the first tick at which they contradict each other is the answer for the whole role.
-/
namespace Bellows.RoleTimelines

variable (t : RoleTimelines)

/-- The ports of a device. -/
def devicePorts : List Int := [1, 2, 3, 4, 5]

/-- The events of a port; if several timelines name the port, the last one holds. -/
def eventsFor? (port : Int) : Option (List Event) :=
  (t.ports.reverse.find? fun p => p.port = port).map PortTimeline.events

/-- What a port asks for at each tick; a port without a timeline is idle. -/
def requestsOf (ticks : List Binary64) (port : Int) : List Request :=
  (Axis.resample ((t.eventsFor? port).getD []) ticks).map fun e => ⟨port, t.partFor? port, e⟩

/-- The requests of all ports at each tick. -/
def requests (ticks : List Binary64) : List (List Request) :=
  let columns := devicePorts.map fun port => (t.requestsOf ticks port).toArray
  (List.range ticks.length).map fun k => columns.filterMap fun column => column[k]?

/-- The commands of a role, one for each tick. -/
def merge (curve : Curve) (ticks : List Binary64) : Except Conflict (List Command) :=
  (ticks.zip (t.requests ticks)).mapM fun (tick, requests) =>
    Resolution.resolve curve t.role tick requests

end Bellows.RoleTimelines
