import Bellows.CommandLine.Folder
import Bellows.Encoding.Detection
import Bellows.Role.ParameterFile

/-!
Hosts: what a run of the program finds around it besides its files. What a host does is not
described here; whatever is said about runs is said for every host.
-/
namespace Bellows.CommandLine

/-- The surroundings of a run. -/
structure Host where
  /-- The place of the folder that paths without a root are seen from. -/
  here : List String
  /-- The encodings besides those that are described here. -/
  codecs : Encoding.Codecs
  /-- How the document of a parameter file is read. -/
  reader : DocumentReader
  /-- The value of a JSON document in which a text holds half of a pair of units. No character
  stands for such a half, so it has to be spelled in some way in the texts of the value. -/
  halved : String → Except ReadingFault Value
  /-- Why a text cannot be written to a path: the disk may be full, a name too long, or writing not
  allowed. -/
  refusal : Folder → Path → String → Option WriteFault
  /-- How the printing of a line of an answer fails, by kind and message: the encoding of the output
  may lack a character, and it has nothing for half of a pair that a text spells. What is told
  besides goes to an output that spells out what it lacks. -/
  unprintable : String → Option (String × String)

namespace Host

variable (host : Host)

/-- What a path leads to. -/
def entry (f : Folder) (path : String) : Entry := f.entry host.here path

/-- A text written to a path, unless the host refuses or the path leads nowhere. -/
def write (f : Folder) (path : Path) (text : String) : Except WriteFault Folder :=
  match host.refusal f path text with
  | some fault => .error fault
  | none => f.write host.here path text

end Host
end Bellows.CommandLine
