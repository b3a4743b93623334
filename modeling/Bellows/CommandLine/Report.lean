import Bellows.CommandLine.Host
import Bellows.CommandLine.Notice
import Bellows.Schedule.Rows
import Bellows.Text.Control

/-!
Reports: what a run prints and how it ends. A run that cannot do its task says why, line by line; a
few faults of the data end a run without a word of its own.
-/
namespace Bellows.CommandLine

/-- The version of the program. -/
def version : String := "0.1.0"

/-- A text with blanks behind it up to a width. -/
def padded (width : Nat) (s : String) : String :=
  s ++ String.ofList (List.replicate (width - s.length) ' ')

/-- A fault that a run has no report for. -/
inductive Breakdown
  /-- A failure of the host that nothing is prepared for. -/
  | foreign (kind message : String)
  /-- A tempo of too many digits to be printed. -/
  | tempoTooLong
  /-- A whole number as a step, beyond all finite numbers. -/
  | stepTooLarge
  | pace (fault : PaceFault)
  | layout (fault : LayoutFault)
  | length (fault : LengthFault)
  /-- A time in a schedule beyond all finite numbers. -/
  | document (fault : DocumentFault)
  /-- A time in a schedule that cannot be rounded. -/
  | rows (fault : RowsFault)
  /-- The name of a role that cannot be part of the name of a file. -/
  | badName (name : String)
  /-- A path with a zero in it, which ends texts outside the program. -/
  | zeroInPath

/-- How a run ends. -/
inductive Ending
  | done
  /-- The task cannot be done, for these reasons. -/
  | refused (reasons : List String)
  | broken (fault : Breakdown)

/-- The answer of a run, what it tells besides, and its ending. -/
structure Report where
  /-- The lines of the answer that are printed ahead of the notices. -/
  ahead : List String
  notices : List Notice
  /-- The lines behind the notices. -/
  lines : List String
  ending : Ending

/-- What a task comes to: a report, or a text to be written after one and the report on how that
went. -/
inductive Plan
  | finish (report : Report)
  | write (path : Path) (text : String) (before : Report) (report : Option WriteFault → Report)

namespace Breakdown

/-- What is printed about a fault where nothing else is. -/
def message : Breakdown → String
  | foreign _ message => message
  | tempoTooLong => Value.tooLongMessage
  | stepTooLarge => "int too large to convert to float"
  | pace fault => fault.message
  | layout fault => fault.message
  | length fault => fault.message
  | document fault => fault.message
  | rows fault => fault.message
  | badName name => s!"Invalid name {quoted name}"
  | zeroInPath => "embedded null byte"

end Breakdown

/-- A text to be written to a path, with the report up to there; a path with a zero in it breaks the
run off. -/
def Plan.store (path : Path) (text : String) (before : Report)
    (report : Option WriteFault → Report) : Plan :=
  if path.text.toList.contains '\x00' then .finish { before with ending := .broken .zeroInPath }
  else .write path text before report

/-- How a run ends that cannot read its score. -/
def Ending.ofScoreFile : ScoreFileFault → Ending
  | .score fault => refused [fault.message]
  | .unforeseen kind message => broken (.foreign kind message)

/-- The status of a run: zero where the task was done. -/
def Ending.status : Ending → Nat
  | done => 0
  | refused _ | broken _ => 1

/-- The lines about an ending. -/
def Ending.lines : Ending → List String
  | refused reasons => reasons.map fun reason => s!"  ERROR: {reason}"
  | done | broken _ => []

namespace Report

variable (r : Report)

/-- Lines one below the other. -/
def text (lines : List String) : String := String.join (lines.map fun l => l ++ "\n")

/-- The lines of the answer, in the order in which they are printed. -/
def answerLines : List String := r.ahead ++ r.lines

/-- The answer as it is printed. -/
def answer : String := text (r.answerLines.map withoutControls)

/-- Notices and reasons as they are printed beside the answer. -/
def remarks (verbose : Bool) : String :=
  text ((r.notices.filter (Notice.isShown verbose)).map Notice.line
    ++ r.ending.lines.map withoutControls)

/-- The lines in front of the first one that a host cannot print, and how it fails there. -/
def stop? (host : Host) : List String → Option (List String × Breakdown)
  | [] => none
  | line :: lines =>
    match host.unprintable (withoutControls line) with
    | some (kind, message) => some ([], .foreign kind message)
    | none => (stop? host lines).map fun (before, fault) => (line :: before, fault)

/-- What is left of a report of which a line cannot be printed; the run is broken off there. -/
def cut? (host : Host) : Option Report :=
  match stop? host r.ahead with
  | some (before, fault) => some ⟨before, [], [], .broken fault⟩
  | none => (stop? host r.lines).map fun (before, fault) =>
    { r with lines := before, ending := .broken fault }

/-- A report as far as a host can print it. -/
def printed (host : Host) : Report := (r.cut? host).getD r

end Report
end Bellows.CommandLine
