import Bellows.CommandLine.Arguments
import Bellows.Text.Numeral

/-!
Invocations: what the arguments of the program ask for. Every task names the files that it reads,
and these must be there before anything is done.
-/
namespace Bellows.CommandLine

/-- What the program can do with files. -/
inductive Task
  /-- A score is converted into a schedule. -/
  | convert (score config : String) (bpm : Option Int) (step : Option Binary64)
      (output : Option String)
  /-- The parts of a score are listed. -/
  | parts (score : String)
  /-- A schedule is checked. -/
  | check (schedule : String)
  /-- One role of a schedule is written out as rows. -/
  | rows (schedule role : String) (output : Option String)
  deriving DecidableEq

/-- The words for the tasks. -/
inductive Verb
  | convert | parts | check | rows
  deriving DecidableEq, Repr

/-- What the program is called for. -/
inductive Invocation
  | version
  /-- The manual of the program, or of one task. -/
  | manual (verb : Option Verb)
  /-- A task, with all notices or only with warnings. -/
  | task (verbose : Bool) (task : Task)
  deriving DecidableEq

/-- The options of the program and of its tasks. -/
inductive Key
  | help | version | verbose | config | bpm | step | output | role
  deriving DecidableEq, Repr

namespace Key

/-- The names of an option. -/
def switch : Key → Switch Key
  | help => ⟨help, ["--help"], ['h'], false⟩
  | version => ⟨version, ["--version"], [], false⟩
  | verbose => ⟨verbose, ["--verbose"], ['v'], false⟩
  | config => ⟨config, ["--config"], ['c'], true⟩
  | bpm => ⟨bpm, ["--bpm"], [], true⟩
  | step => ⟨step, ["--trill-interval"], [], true⟩
  | output => ⟨output, ["--output"], ['o'], true⟩
  | role => ⟨role, ["--role"], ['r'], true⟩

end Key

/-- The options of the program itself. -/
def programKeys : List Key := [.version, .verbose, .help]

namespace Verb

/-- The task that a word stands for. -/
def ofWord? : String → Option Verb
  | "convert" => some convert
  | "parts" => some parts
  | "check" => some check
  | "rows" => some rows
  | _ => none

/-- The options of a task. -/
def keys : Verb → List Key
  | convert => [.config, .bpm, .step, .output, .help]
  | parts | check => [.help]
  | rows => [.role, .output, .help]

/-- What the operand of a task is called. -/
def operand : Verb → String
  | convert | parts => "SCORE"
  | check | rows => "SCHEDULE_FILE"

end Verb

/-- The slowest and the fastest tempo that may be given as an argument. -/
def leastBpm : Int := 1

def greatestBpm : Int := 400

namespace Task

/-- A tempo given as an argument. -/
def readBpm (text : String) : Except UsageFault Int :=
  match readInteger text with
  | .ok n => if leastBpm ≤ n ∧ n ≤ greatestBpm then .ok n else .error (.badValue "--bpm" text)
  | .error _ => .error (.badValue "--bpm" text)

/-- A step given as an argument: anything but a number below one. -/
def readStep (text : String) : Except UsageFault Binary64 :=
  match readBinary64 text with
  | some x => if x.lt (.ofNat 1) then .error (.badValue "--trill-interval" text) else .ok x
  | none => .error (.badValue "--trill-interval" text)

/-- The only operand of a task. -/
def onlyOperand (verb : Verb) : List String → Except UsageFault String
  | [] => .error (.operandMissing verb.operand)
  | [operand] => .ok operand
  | _ :: extra => .error (.extraOperands extra)

/-- The value of an option that must be given. -/
def required (a : Arguments Key) (key : Key) (name : String) : Except UsageFault String :=
  match a.value? key with
  | some value => .ok value
  | none => .error (.optionMissing name)

/-- The task that a word and its arguments ask for. -/
def ofArguments (verb : Verb) (a : Arguments Key) : Except UsageFault Task := do
  let operand ← onlyOperand verb a.operands
  match verb with
  | .convert =>
    let config ← required a .config "--config"
    let bpm ← (a.value? .bpm).mapM readBpm
    let step ← (a.value? .step).mapM readStep
    .ok (.convert operand config bpm step (a.value? .output))
  | .parts => .ok (.parts operand)
  | .check => .ok (.check operand)
  | .rows =>
    let role ← required a .role "--role"
    .ok (.rows operand role (a.value? .output))

/-- The files that a task reads. -/
def inputs : Task → List String
  | convert score config _ _ _ => [score, config]
  | parts score => [score]
  | check schedule => [schedule]
  | rows schedule _ _ => [schedule]

end Task

namespace Invocation

/-- The invocation of a task. -/
def ofWords (verbose : Bool) : List String → Except UsageFault Invocation
  | [] => .error .noCommand
  | word :: arguments =>
    match Verb.ofWord? word with
    | none => .error (.unknownCommand word)
    | some verb => do
      let a ← Arguments.divide (verb.keys.map Key.switch) true arguments
      if a.has .help then .ok (.manual (some verb))
      else
        let task ← Task.ofArguments verb a
        .ok (.task verbose task)

/-- What arguments ask for. The version and the manual go before everything else. -/
def ofArguments (arguments : List String) : Except UsageFault Invocation := do
  let a ← Arguments.divide (programKeys.map Key.switch) false arguments
  match a.options.find? fun o => o.1 ≠ .verbose with
  | some (.version, _) => .ok .version
  | some _ => .ok (.manual none)
  | none => ofWords (a.has .verbose) a.operands

/-- The files that an invocation reads. -/
def inputs : Invocation → List String
  | task _ t => t.inputs
  | _ => []

end Invocation

/-- The message for arguments that cannot be understood. -/
def UsageFault.message : UsageFault → String
  | .noCommand => "Missing command."
  | .unknownCommand name => s!"No such command '{name}'."
  | .unknownOption name => s!"No such option: {name}"
  | .valueMissing option => s!"Option '{option}' requires an argument."
  | .valueRefused option => s!"Option '{option}' does not take a value."
  | .optionMissing option => s!"Missing option '{option}'."
  | .operandMissing operand => s!"Missing argument '{operand}'."
  | .extraOperands operands =>
    let joined := String.intercalate " " operands
    s!"Got unexpected extra arguments ({joined})"
  | .badValue option value => s!"Invalid value for '{option}': {value}"
  | .noSuchFile path => s!"File '{path}' does not exist."
  | .notFile path => s!"File '{path}' is a directory."

end Bellows.CommandLine
