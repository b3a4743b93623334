import Bellows.Role.Parameters

/-!
Parameter files: documents that hold the parameters of a conversion. How octets are read as a
document is left to the host.
-/
namespace Bellows

/-- Why octets hold no document. -/
inductive ReadingFault
  /-- They do not keep to the grammar of documents. -/
  | malformed
  /-- They are no text, or something in them is not what it says that it is. -/
  | refused (kind message : String)
  /-- Reading fails in a way that nothing is prepared for. -/
  | unforeseen (kind message : String)
  deriving DecidableEq, Repr

/-- What reading makes of octets: a value, in which every text is made of characters. -/
abbrev DocumentReader := List UInt8 → Except ReadingFault Value

/-- Why a parameter file gives no settings. -/
inductive ParameterFileFault
  | malformed (path : String)
  | refused (kind message : String)
  | unforeseen (kind message : String)
  | notMap (path : String)
  | parameters (fault : ParameterFault)

namespace Settings

/-- The document of a parameter file; an empty one has no entries. -/
def documentOf (reader : DocumentReader) (path : String) (octets : List UInt8) :
    Except ParameterFileFault (List (Value × Value)) :=
  match reader octets with
  | .error .malformed => .error (.malformed path)
  | .error (.refused kind message) => .error (.refused kind message)
  | .error (.unforeseen kind message) => .error (.unforeseen kind message)
  | .ok v =>
    if v.isEmpty then .ok []
    else match v with
      | .map entries => .ok entries
      | _ => .error (.notMap path)

/-- The settings of a parameter file; a tempo and a step given beside it go first. -/
def ofFile (reader : DocumentReader) (path : String) (octets : List UInt8)
    (bpm step : Option Value) : Except ParameterFileFault Settings :=
  match documentOf reader path octets with
  | .error fault => .error fault
  | .ok entries =>
    match ofDocument entries bpm step with
    | .ok settings => .ok settings
    | .error fault => .error (.parameters fault)

end Settings

/-- The reason of a fault; for what does not keep to the grammar no more is told. -/
def ParameterFileFault.message : ParameterFileFault → String
  | .malformed path => s!"{path}: not valid YAML"
  | .refused _ message | .unforeseen _ message => message
  | .notMap path => s!"{path}: parameters file must contain a mapping"
  | .parameters fault => fault.message

end Bellows
