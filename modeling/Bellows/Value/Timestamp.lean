/-!
Calendar dates and moments of a day, as parameter documents may name them, and how they are
written.
-/
namespace Bellows

/-- A day of the Gregorian calendar. -/
structure Date where
  year : Nat
  month : Nat
  day : Nat
  deriving DecidableEq, Repr

/-- A moment of a day, with its offset from universal time in minutes where one is known. -/
structure Moment where
  date : Date
  hour : Nat
  minute : Nat
  second : Nat
  microsecond : Nat
  offset : Option Int
  deriving DecidableEq, Repr

/-- A number in at least `width` digits. -/
def padded (width n : Nat) : String :=
  let digits := Nat.toDigits 10 n
  String.ofList (List.replicate (width - digits.length) '0' ++ digits)

namespace Date

def isLeap (year : Nat) : Bool := year % 4 = 0 && (year % 100 ≠ 0 || year % 400 = 0)

/-- The number of days in a month. -/
def daysIn (year month : Nat) : Nat :=
  if month = 2 then if isLeap year then 29 else 28
  else if [4, 6, 9, 11].contains month then 30 else 31

/-- Year, month and day, joined by hyphens. -/
def text (d : Date) : String := s!"{padded 4 d.year}-{padded 2 d.month}-{padded 2 d.day}"

/-- The date as messages quote it. -/
def quoted (d : Date) : String := s!"datetime.date({d.year}, {d.month}, {d.day})"

end Date

namespace Moment

/-- An offset in hours and minutes, with its sign. -/
def offsetText (minutes : Int) : String :=
  let sign := if minutes < 0 then "-" else "+"
  s!"{sign}{padded 2 (minutes.natAbs / 60)}:{padded 2 (minutes.natAbs % 60)}"

/-- Date, time of day, fraction of a second where there is one, and offset where it is known. -/
def text (m : Moment) : String :=
  let time := s!"{padded 2 m.hour}:{padded 2 m.minute}:{padded 2 m.second}"
  let fraction := if m.microsecond = 0 then "" else s!".{padded 6 m.microsecond}"
  let offset := match m.offset with
    | some minutes => offsetText minutes
    | none => ""
  s!"{m.date.text} {time}{fraction}{offset}"

/-- The zone of a moment as messages quote it. -/
def quotedZone (minutes : Int) : String :=
  if minutes = 0 then "datetime.timezone.utc"
  else if minutes < 0 then
    let seconds := 86400 + minutes * 60
    s!"datetime.timezone(datetime.timedelta(days=-1, seconds={seconds}))"
  else
    let seconds := minutes * 60
    s!"datetime.timezone(datetime.timedelta(seconds={seconds}))"

/-- The moment as messages quote it; final zeros after the minute are left out. -/
def quoted (m : Moment) : String :=
  let seconds :=
    if m.microsecond ≠ 0 then s!", {m.second}, {m.microsecond}"
    else if m.second ≠ 0 then s!", {m.second}"
    else ""
  let zone := match m.offset with
    | some minutes => s!", tzinfo={quotedZone minutes}"
    | none => ""
  s!"datetime.datetime({m.date.year}, {m.date.month}, {m.date.day}, " ++
    s!"{m.hour}, {m.minute}{seconds}{zone})"

end Moment
end Bellows
