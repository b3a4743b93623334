import Bellows.Keyed

/-!
Scores: parts of measures of notes. A note says what the air does while it sounds; durations are
counted in the divisions of the note's measure.
-/
namespace Bellows

/-- The eight levels of loudness, softest first. -/
inductive Dynamic
  | ppp | pp | p | mp | mf | f | ff | fff
  deriving DecidableEq, Repr

namespace Dynamic

/-- The levels in order. -/
def all : List Dynamic := [ppp, pp, p, mp, mf, f, ff, fff]

/-- The place of a level in the order. -/
def level : Dynamic → Nat
  | ppp => 0 | pp => 1 | p => 2 | mp => 3 | mf => 4 | f => 5 | ff => 6 | fff => 7

/-- The sign for a level in a score. -/
def mark : Dynamic → String
  | ppp => "ppp" | pp => "pp" | p => "p" | mp => "mp"
  | mf => "mf" | f => "f" | ff => "ff" | fff => "fff"

/-- The level that a sign stands for. -/
def ofMark? (s : String) : Option Dynamic := all.find? fun d => d.mark = s

theorem ofMark?_mark (d : Dynamic) : ofMark? d.mark = some d := by cases d <;> decide

theorem all_getElem?_level (d : Dynamic) : all[d.level]? = some d := by cases d <;> rfl

end Dynamic

/-- How many beats a measure has, and which part of a whole note is one beat. -/
structure Signature where
  beats : Int
  beatType : Int
  deriving DecidableEq, Repr

/-- Both numbers with a stroke between them. -/
def Signature.text (s : Signature) : String := s!"{s.beats}/{s.beatType}"

/-- What the air does during a note. -/
inductive NoteKind
  /-- Air is let out. -/
  | rest (dynamic : Dynamic)
  /-- Whatever is happening goes on; a hold has no loudness of its own. -/
  | hold
  /-- Air is pumped in. -/
  | actuate (dynamic : Dynamic)
  /-- Pumping alternates with waiting. -/
  | trill (dynamic : Dynamic)
  /-- Pumping alternates with letting out. -/
  | hardTrill (dynamic : Dynamic)
  deriving DecidableEq, Repr

/-- The loudness of a note; a hold is at the bottom of the scale. -/
def NoteKind.dynamic : NoteKind → Dynamic
  | rest d | actuate d | trill d | hardTrill d => d
  | hold => .ppp

structure Note where
  kind : NoteKind
  duration : Int
  deriving DecidableEq, Repr

/-- A measure with the signature and the divisions of a quarter note that are in force in it. -/
structure Measure where
  number : Int
  signature : Signature
  divisions : Int
  notes : List Note
  deriving DecidableEq, Repr

structure Part where
  name : String
  measures : List Measure
  deriving DecidableEq, Repr

/-- The parts of a score under their names in it. -/
abbrev Score := Keyed String Part

end Bellows
