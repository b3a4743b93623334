import Bellows.CommandLine.Report

/-!
The task of converting a score into a schedule file.
-/
namespace Bellows.CommandLine

/-- What a conversion is made from: the paths and the octets of its files, and what is given beside
them. -/
structure ConvertJob where
  score : String
  config : String
  scoreOctets : List UInt8
  configOctets : List UInt8
  bpm : Option Int
  step : Option Binary64
  output : Option String

namespace ConvertJob

variable (job : ConvertJob)

/-- Where the schedule goes: beside the score, unless something else is said. -/
def target : String :=
  job.output.getD ((Path.ofText job.score).withExtension ".schedule.json").text

/-- The lines in front of everything else. -/
def heading : List String := [
  s!"flowscore v{version}",
  s!"  Score  : {job.score}",
  s!"  Config : {job.config}",
  s!"  Output : {job.target}",
  "",
  "[1/3] Loading conversion parameters..."]

/-- How a run ends whose parameter file gives no settings. -/
def parameterEnding : ParameterFileFault → Ending
  | .unforeseen kind message => .broken (.foreign kind message)
  | fault => .refused [s!"Invalid parameters — {fault.message}"]

/-- The line about the tempo and the step. -/
def tempoLine (settings : Settings) : Except Breakdown String :=
  if (Value.int settings.bpm).isTooLong then .error .tempoTooLong
  else
    match settings.step.quantity?.bind Quantity.toBinary64? with
    | some step => .ok s!"      Tempo: {settings.bpm} BPM  |  Trill interval: {step.brief} ms"
    | none => .error .stepTooLarge

/-- How a run ends whose score is not converted. -/
def conversionEnding : ConversionFault → Ending
  | .layout fault => .broken (.layout fault)
  | .length fault => .broken (.length fault)
  | fault => .refused (fault.errors.map RoleFault.message)

/-- The line about one role: how many of its commands do something. -/
def roleLine (role : String) (commands : List Command) : String :=
  let active := (commands.filter fun c => c.action ≠ .stop).length
  s!"        {padded 16 role} {active} active tick(s)"

/-- The lines about a schedule. -/
def summary (schedule : Schedule) : List String :=
  let seconds := (schedule.time.getLast?.getD .zero).dividedBy 1000
  s!"      {schedule.time.length} tick(s), {seconds.onePlace} s"
    :: schedule.instructions.entries.map fun (role, commands) => roleLine role commands

/-- The lines that say that a schedule is written. -/
def verdict : List String := ["", "Done!"]

/-- The report on writing a schedule, after the report up to there. -/
def written (before : Report) : Option WriteFault → Report
  | none => { before with lines := before.lines ++ verdict, ending := .done }
  | some fault =>
    let reason := fault.message (Path.ofText job.target)
    { before with ending := .refused [s!"Could not write schedule file — {reason}"] }

/-- The schedule of a score with some settings, with the notices up to it. -/
def compile (host : Host) (settings : Settings) : List Notice × Except Ending Schedule :=
  match settings.pace with
  | .error fault => ([], .error (.broken (.pace fault)))
  | .ok pace =>
    let read := Notice.ofDocument host.codecs Score.defaultOrnament job.scoreOctets
    match Score.ofOctets host.codecs Score.defaultOrnament job.scoreOctets with
    | .error fault => (read, .error (.ofScoreFile fault))
    | .ok score =>
      (read ++ Notice.ofConversion pace score settings Axis.defaultTolerance,
        match settings.convert pace Axis.defaultTolerance score with
        | .ok schedule => .ok schedule
        | .error fault => .error (conversionEnding fault))

/-- What a conversion comes to. -/
def plan (host : Host) : Plan :=
  let step := job.step.map Value.float
  match Settings.ofFile host.reader job.config job.configOctets (job.bpm.map Value.int) step with
  | .error fault => .finish ⟨job.heading, [], [], parameterEnding fault⟩
  | .ok settings =>
    match tempoLine settings with
    | .error fault => .finish ⟨job.heading, [], [], .broken fault⟩
    | .ok line =>
      let ahead := job.heading ++ [line, "[2/3] Compiling schedule..."]
      match job.compile host settings with
      | (notices, .error ending) => .finish ⟨ahead, notices, [], ending⟩
      | (notices, .ok schedule) =>
        let lines := summary schedule ++ [s!"[3/3] Writing schedule → '{job.target}'..."]
        let before := ⟨ahead, notices, lines, .done⟩
        .store (Path.ofText job.target) (schedule.render (some 2)) before (job.written before)

end ConvertJob
end Bellows.CommandLine
