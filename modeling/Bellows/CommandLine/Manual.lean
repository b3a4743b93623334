import Bellows.CommandLine.Invocation

/-!
The manual: one page for the program and one for each task.
-/
namespace Bellows.CommandLine

/-- The page of the program. -/
def overviewPage : List String := [
  "Usage: flowscore [OPTIONS] COMMAND [ARGS]...",
  "",
  "  flowscore — compile dynamics-annotated MusicXML into FlowIO schedules.",
  "",
  "Options:",
  "  --version      Show the version and exit.",
  "  -v, --verbose  Log pipeline details to stderr.",
  "  -h, --help     Show this message and exit.",
  "",
  "Commands:",
  "  check    Validate a schedule JSON file.",
  "  convert  Convert a MusicXML score into a JSON actuation schedule.",
  "  parts    List the parts of a score, to help write the role mapping.",
  "  rows     Export one role as rows for the manual per-device scheduler."]

/-- The page of a task. -/
def Verb.page : Verb → List String
  | convert => [
    "Usage: flowscore convert [OPTIONS] SCORE",
    "",
    "  Convert a MusicXML score into a JSON actuation schedule.",
    "",
    "  SCORE is the path to a .musicxml/.xml file.",
    "",
    "  Examples:",
    "    flowscore convert duet.musicxml -c roles.yaml",
    "    flowscore convert duet.musicxml -c roles.yaml --bpm 72 -o duet.json",
    "",
    "Options:",
    "  -c, --config FILE      YAML file with bpm, dynamics curve, trill interval and",
    "                         role/port mapping.  [required]",
    "  --bpm INTEGER RANGE    Tempo in BPM. Overrides the value in --config.",
    "                         [1<=x<=400]",
    "  --trill-interval MS    Length of each trill sub-event in ms. Overrides the",
    "                         value in --config.  [x>=1.0]",
    "  -o, --output PATH      Destination schedule file. Defaults to",
    "                         <score>.schedule.json.",
    "  -h, --help             Show this message and exit."]
  | parts => [
    "Usage: flowscore parts [OPTIONS] SCORE",
    "",
    "  List the parts of a score, to help write the role mapping.",
    "",
    "  SCORE is the path to a .musicxml/.xml file.",
    "",
    "Options:",
    "  -h, --help  Show this message and exit."]
  | check => [
    "Usage: flowscore check [OPTIONS] SCHEDULE_FILE",
    "",
    "  Validate a schedule JSON file.",
    "",
    "  SCHEDULE_FILE is a file written by `flowscore convert`.",
    "",
    "Options:",
    "  -h, --help  Show this message and exit."]
  | rows => [
    "Usage: flowscore rows [OPTIONS] SCHEDULE_FILE",
    "",
    "  Export one role as rows for the manual per-device scheduler.",
    "",
    "  Examples:",
    "    flowscore rows duet.schedule.json --role left-arm",
    "",
    "Options:",
    "  -r, --role TEXT    Role to export.  [required]",
    "  -o, --output PATH  Destination rows file. Defaults to <schedule>-",
    "                     <role>.rows.json.",
    "  -h, --help         Show this message and exit."]

/-- The page that is asked for. -/
def manualPage : Option Verb → List String
  | none => overviewPage
  | some verb => verb.page

end Bellows.CommandLine
