import Bellows.Encoding.Detection
import Bellows.Score.Basic
import Bellows.Text.Numeral
import Bellows.Xml.Document
import Bellows.Xml.Strip

/-!
Scores read from MusicXML. Loudness, signature and divisions hold on from measure to measure of a
part until they are changed. Only the notes of a single voice count: the further notes of a chord
and grace notes take no time.
-/
namespace Bellows

/-- What is wrong in a measure. -/
inductive MeasureFault
  /-- An element that should hold a whole number holds something else. -/
  | notWhole (element text : String)
  | badBeats (text : String)
  | noDuration
  | restWithoutDynamic
  | noteWithoutDynamic
  | lacks (signature divisions : Bool)
  | divisionsNotPositive
  deriving DecidableEq, Repr

/-- Why no score is read from a document. Of octets without a text, and of a text that is no XML,
the messages do not say more than that; what a decoder or a reader of XML adds is left out. -/
inductive ScoreFault
  | undecodable (encoding : String)
  | notXml
  | declarationWithoutId
  | partWithoutId
  | partNotDeclared (part : String)
  | partWithoutMeasures (part name : String)
  | measure (part : String) (number : Option Int) (fault : MeasureFault)
  deriving DecidableEq, Repr

/-- Why no score is read from a file. -/
inductive ScoreFileFault
  | score (fault : ScoreFault)
  /-- The encoding fails in a way that nothing is prepared for. -/
  | unforeseen (kind message : String)
  deriving DecidableEq, Repr

namespace MusicXml

open Xml (Element)

/-- What holds on through a part. -/
structure Running where
  dynamic : Option Dynamic
  signature : Option Signature
  divisions : Option Int
  deriving DecidableEq, Repr

/-- The start of a part. -/
def Running.start : Running := ⟨none, none, none⟩

/-- A whole number with blanks around it. -/
def whole? (text : String) : Option Int := (readInteger (trimBlanks text)).toOption

/-- The whole number in the first child with a tag, if there is such a child. -/
def wholeChild (tag : String) (e : Element) : Except MeasureFault (Option Int) :=
  match e.childText? tag with
  | none => .ok none
  | some text => match whole? text with
    | some n => .ok (some n)
    | none => .error (.notWhole tag text)

/-- The sum of numbers with plus signs between them. -/
def beats? (text : String) : Option Int :=
  ((text.splitOn "+").mapM fun group => (readInteger group).toOption).map fun groups =>
    groups.foldl (· + ·) 0

/-- The signature of a measure, if it is stated completely. -/
def readSignature (attributes : Element) : Except MeasureFault (Option Signature) :=
  match attributes.child? "time" with
  | none => .ok none
  | some time => do
    let beatType ← wholeChild "beat-type" time
    match time.childText? "beats", beatType with
    | some text, some beatType => match beats? text with
      | some beats => .ok (some ⟨beats, beatType⟩)
      | none => .error (.badBeats text)
    | _, _ => .ok none

/-- What a measure states about itself replaces what held before. -/
def readAttributes (running : Running) (attributes : Element) : Except MeasureFault Running := do
  let signature ← readSignature attributes
  let divisions ← wholeChild "divisions" attributes
  .ok { running with
    signature := signature.or running.signature
    divisions := divisions.or running.divisions }

/-- The first known mark of loudness below an element. -/
def dynamicIn? (e : Element) : Option Dynamic :=
  ((e.withTag "dynamics").flatMap Element.children).findSome? fun mark => Dynamic.ofMark? mark.tag

/-- Loudness after an element that may hold marks. -/
def dynamicAfter (dynamic : Option Dynamic) (e : Element) : Option Dynamic :=
  (dynamicIn? e).or dynamic

/-- Whether a note takes no time of its own. -/
def isSkipped (note : Element) : Bool := note.has ["chord"] || note.has ["grace"]

/-- Loudness at a note: that before it, unless the note is marked itself. -/
def dynamicAt (dynamic : Option Dynamic) (note : Element) : Option Dynamic :=
  match note.child? "notations" with
  | some notations => dynamicAfter dynamic notations
  | none => dynamic

/-- The length of a note is not negative. -/
def readDuration (note : Element) : Except MeasureFault Int := do
  match ← wholeChild "duration" note with
  | some n => if n < 0 then .error .noDuration else .ok n
  | none => .error .noDuration

/-- The head of a note that is held. -/
def holdHead : String := "x"

/-- What kind of note an element is. An ornament in front of all marks has a loudness of its own. -/
def readKind (ornament : Dynamic) (dynamic : Option Dynamic) (note : Element) :
    Except MeasureFault NoteKind :=
  if note.has ["rest"] then
    match dynamic with
    | some d => .ok (.rest d)
    | none => .error .restWithoutDynamic
  else if trimBlanks ((note.childText? "notehead").getD "") = holdHead then .ok .hold
  else if note.has ["notations", "ornaments", "trill-mark"] then
    .ok (.hardTrill (dynamic.getD ornament))
  else if note.has ["notations", "ornaments", "tremolo"] then
    .ok (.trill (dynamic.getD ornament))
  else
    match dynamic with
    | some d => .ok (.actuate d)
    | none => .error .noteWithoutDynamic

/-- A note with the loudness at it. -/
def readNote (ornament : Dynamic) (dynamic : Option Dynamic) (note : Element) :
    Except MeasureFault Note := do
  let duration ← readDuration note
  let kind ← readKind ornament dynamic note
  .ok ⟨kind, duration⟩

/-- The children of a measure one after another: what holds after them, and their notes. -/
def readChildren (ornament : Dynamic) (running : Running) :
    List Element → Except MeasureFault (Running × List Note)
  | [] => .ok (running, [])
  | child :: rest =>
    if child.tag = "attributes" then do
      let running ← readAttributes running child
      readChildren ornament running rest
    else if child.tag = "direction" then
      readChildren ornament { running with dynamic := dynamicAfter running.dynamic child } rest
    else if child.tag = "note" && !isSkipped child then do
      let running := { running with dynamic := dynamicAt running.dynamic child }
      let note ← readNote ornament running.dynamic child
      let (last, notes) ← readChildren ornament running rest
      .ok (last, note :: notes)
    else readChildren ornament running rest

/-- The number of a measure, if it has one. -/
def measureNumber? (measure : Element) : Option Int :=
  (readInteger ((measure.attribute? "number").getD "")).toOption

/-- A measure at a place in its part, which is its number if it has none. -/
def readMeasure (ornament : Dynamic) (running : Running) (place : Nat) (measure : Element) :
    Except MeasureFault (Running × Measure) := do
  let (running, notes) ← readChildren ornament running measure.children
  match running.signature, running.divisions with
  | some signature, some divisions =>
    if divisions ≤ 0 then .error .divisionsNotPositive
    else .ok (running, ⟨(measureNumber? measure).getD place, signature, divisions, notes⟩)
  | signature, divisions => .error (.lacks signature.isNone divisions.isNone)

/-- The measures of a part from a place on. -/
def readMeasures (ornament : Dynamic) (part : String) (running : Running) (place : Nat) :
    List Element → Except ScoreFault (List Measure)
  | [] => .ok []
  | measure :: rest =>
    match readMeasure ornament running place measure with
    | .error fault => .error (.measure part (measureNumber? measure) fault)
    | .ok (running, m) => do
      let ms ← readMeasures ornament part running (place + 1) rest
      .ok (m :: ms)

/-- Entries under the identifiers of elements; each must have one. -/
def identified {α : Type} (fault : ScoreFault) (f : Element → α) (es : List Element) :
    Except ScoreFault (Keyed String α) := do
  let entries ← es.mapM fun e => match e.attribute? "id" with
    | some id => .ok (id, f e)
    | none => .error fault
  .ok (Keyed.ofList entries)

/-- The name in a declaration of a part. -/
def partName (declaration : Element) : String :=
  trimBlanks ((declaration.childText? "part-name").getD "")

/-- The declared parts of a document with their names. -/
def declaredParts (root : Element) : Except ScoreFault (Keyed String String) :=
  identified .declarationWithoutId partName (root.withTag "score-part")

/-- The parts of a document that have measures. -/
def writtenParts (root : Element) : Except ScoreFault (Keyed String Element) :=
  identified .partWithoutId id (root.withTag "part")

/-- One declared part. -/
def readPart (ornament : Dynamic) (written : Keyed String Element) (part name : String) :
    Except ScoreFault Part := do
  let measures ← match written.get? part with
    | some e => readMeasures ornament part .start 1 (e.childrenWith "measure")
    | none => .ok []
  if measures.isEmpty then .error (.partWithoutMeasures part name) else .ok ⟨name, measures⟩

/-- Each declared part, as far as it can be read. -/
def readParts (ornament : Dynamic) (root : Element) :
    Except ScoreFault (List (String × Except ScoreFault Part)) := do
  let declared ← declaredParts root
  let written ← writtenParts root
  match written.keys.find? fun part => !declared.contains part with
  | some part => .error (.partNotDeclared part)
  | none =>
    .ok (declared.entries.map fun (part, name) => (part, readPart ornament written part name))

end MusicXml

namespace Score

/-- The loudness of ornaments in front of all marks where nothing else is said. -/
def defaultOrnament : Dynamic := .mf

/-- The score of a document. -/
def ofElement (ornament : Dynamic) (root : Xml.Element) : Except ScoreFault Score := do
  let parts ← MusicXml.readParts ornament root
  let entries ← parts.mapM fun (part, result) => result.map (part, ·)
  .ok (Keyed.ofList entries)

/-- The element of a document, which is read without its type declaration. -/
def elementOf (text : String) : Except ScoreFault Xml.Element :=
  match Xml.Document.read (Xml.stripDoctype text) with
  | some root => .ok root
  | none => .error .notXml

/-- The text of a document. -/
def textOf (codecs : Encoding.Codecs) (octets : List UInt8) : Except ScoreFileFault String :=
  match Encoding.decode codecs octets with
  | .ok text => .ok text
  | .error .undecodable => .error (.score (.undecodable (Encoding.detect octets)))
  | .error (.unforeseen kind message) => .error (.unforeseen kind message)

/-- The score of the text of a document. -/
def ofText (ornament : Dynamic) (text : String) : Except ScoreFault Score := do
  let root ← elementOf text
  ofElement ornament root

/-- The score of a document in any encoding. -/
def ofOctets (codecs : Encoding.Codecs) (ornament : Dynamic) (octets : List UInt8) :
    Except ScoreFileFault Score := do
  let text ← textOf codecs octets
  (ofText ornament text).mapError .score

end Score

namespace MeasureFault

def message : MeasureFault → String
  | .notWhole element text => s!"invalid {element} '{text}'"
  | .badBeats text => s!"invalid beats '{text}'"
  | .noDuration => "note without a valid duration"
  | .restWithoutDynamic => "rest before any dynamics marking"
  | .noteWithoutDynamic => "note before any dynamics marking"
  | .lacks true true => "first measure lacks time signature and divisions"
  | .lacks true false => "first measure lacks time signature"
  | .lacks false _ => "first measure lacks divisions"
  | .divisionsNotPositive => "divisions must be positive"

end MeasureFault

namespace ScoreFault

/-- A measure with its number, if it has one. -/
def measureLabel (number : Option Int) : String :=
  match number with
  | some n => s!"measure {n}"
  | none => "measure unknown"

def message : ScoreFault → String
  | .undecodable encoding => s!"Could not decode MusicXML as {encoding}"
  | .notXml => "Could not parse MusicXML"
  | .declarationWithoutId => "score-part without an id attribute"
  | .partWithoutId => "part without an id attribute"
  | .partNotDeclared part => s!"Part '{part}' has measures but no score-part name"
  | .partWithoutMeasures part name => s!"Part '{part}' ({name}) has a name but no measures"
  | .measure part number fault => s!"Part '{part}', {measureLabel number}: {fault.message}"

/-- The part that is to blame. -/
def part? : ScoreFault → Option String
  | .partNotDeclared part | .partWithoutMeasures part _ | .measure part _ _ => some part
  | _ => none

/-- The measure that is to blame. -/
def measure? : ScoreFault → Option Int
  | .measure _ number _ => number
  | _ => none

end ScoreFault
end Bellows
