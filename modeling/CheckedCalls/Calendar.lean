/-!
# Calendar dates and times

A date is a day of the proleptic Gregorian calendar in the years 1 to 9999; a moment adds a time
of day and, if it is zoned, its distance from universal time in minutes. An `Instant` counts
microseconds from the first midnight of the calendar: a date counts as its midnight, a moment
without a zone as universal time, and a zoned moment is shifted, which fails if the shift leaves
the calendar.
-/

namespace CheckedCalls

/-- A day of the calendar. -/
structure Date where
  year : Nat
  month : Nat
  day : Nat
  deriving DecidableEq, Repr, Inhabited

/-- A time of a day, with the distance from universal time in minutes if it is zoned. -/
structure Moment where
  date : Date
  hour : Nat
  minute : Nat
  second : Nat
  microsecond : Nat
  offset : Option Int
  deriving DecidableEq, Repr, Inhabited

/-- Microseconds from the midnight that starts the first day of year 1. -/
abbrev Instant := Int

namespace Date

/-- The year has a twenty-ninth of February. -/
def isLeap (year : Nat) : Bool :=
  year % 4 == 0 && (year % 100 != 0 || year % 400 == 0)

/-- The number of days of a month. -/
def daysInMonth (year month : Nat) : Nat :=
  match month with
  | 1 => 31 | 2 => if isLeap year then 29 else 28 | 3 => 31 | 4 => 30 | 5 => 31 | 6 => 30
  | 7 => 31 | 8 => 31 | 9 => 30 | 10 => 31 | 11 => 30 | 12 => 31
  | _ => 0

/-- The date is a day of the calendar. -/
def isValid (d : Date) : Bool :=
  decide (1 ≤ d.year ∧ d.year ≤ 9999 ∧ 1 ≤ d.month ∧ d.month ≤ 12 ∧ 1 ≤ d.day) &&
    decide (d.day ≤ daysInMonth d.year d.month)

/-- The number of days before the first of January of a year. -/
def daysBeforeYear (year : Nat) : Nat :=
  let y := year - 1
  365 * y + y / 4 - y / 100 + y / 400

/-- The number of days of a year before the first of a month. -/
def daysBeforeMonth (year month : Nat) : Nat :=
  (List.range (month - 1)).foldl (fun days m => days + daysInMonth year (m + 1)) 0

/-- The number of days before a date; the first day of year 1 has none. -/
def dayNumber (d : Date) : Nat :=
  daysBeforeYear d.year + daysBeforeMonth d.year d.month + (d.day - 1)

/-- The microseconds of a day. -/
def microsecondsPerDay : Nat := 86400000000

/-- The instant of a date: its midnight. -/
def instant (d : Date) : Instant := (d.dayNumber * microsecondsPerDay : Nat)

/-- The last instant of the calendar. -/
def lastInstant : Instant := (daysBeforeYear 10000 * microsecondsPerDay : Nat) - 1

/-- A number with zeros in front, up to a width. -/
def padded (width n : Nat) : String :=
  let digits := Nat.toDigits 10 n
  String.ofList (List.replicate (width - digits.length) '0' ++ digits)

/-- A date as it is shown: year, month and day. -/
def display (d : Date) : String :=
  padded 4 d.year ++ "-" ++ padded 2 d.month ++ "-" ++ padded 2 d.day

/-- The literal text of a date. -/
def literal (d : Date) : String :=
  "datetime.date(" ++ toString d.year ++ ", " ++ toString d.month ++ ", " ++ toString d.day ++ ")"

end Date

namespace Moment

/-- The moment is a time of a day of the calendar, less than a day away from universal time. -/
def isValid (m : Moment) : Bool :=
  m.date.isValid &&
    decide (m.hour < 24 ∧ m.minute < 60 ∧ m.second < 60 ∧ m.microsecond < 1000000) &&
    match m.offset with
    | none => true
    | some o => decide (o.natAbs < 1440)

/-- Microseconds since the midnight of the moment's own day. -/
def timeOfDay (m : Moment) : Nat :=
  ((m.hour * 60 + m.minute) * 60 + m.second) * 1000000 + m.microsecond

/-- The instant that the moment's own clock shows. -/
def localInstant (m : Moment) : Instant := m.date.instant + m.timeOfDay

/-- The moment's instant in universal time, which may lie outside the calendar. -/
def universalInstant (m : Moment) : Instant :=
  m.localInstant - m.offset.getD 0 * 60000000

/-- The instant of a moment: by its own clock without a zone, in universal time with one, if that
lies in the calendar. -/
def instant? (m : Moment) : Option Instant :=
  match m.offset with
  | none => some m.localInstant
  | some _ =>
    let u := m.universalInstant
    if 0 ≤ u ∧ u ≤ Date.lastInstant then some u else none

/-- Two moments denote the same time: both without a zone or both with one. -/
def same (m n : Moment) : Bool :=
  m.offset.isSome == n.offset.isSome && m.universalInstant == n.universalInstant

/-- `m` is before `n`; a moment with a zone and one without are not comparable. -/
def before? (m n : Moment) : Option Bool :=
  if m.offset.isSome = n.offset.isSome then some (decide (m.universalInstant < n.universalInstant))
  else none

/-- The literal text of a distance from universal time. -/
def offsetLiteral (minutes : Int) : String :=
  if minutes = 0 then "datetime.timezone.utc"
  else
    let days := minutes / 1440
    let seconds := minutes % 1440 * 60
    let dayPart := if days = 0 then "" else "days=" ++ toString days
    let secondPart := if seconds = 0 then "" else "seconds=" ++ toString seconds
    let glue := if days = 0 ∨ seconds = 0 then "" else ", "
    "datetime.timezone(datetime.timedelta(" ++ dayPart ++ glue ++ secondPart ++ "))"

/-- A distance from universal time as it is shown: its sign, hours and minutes. -/
def offsetDisplay (minutes : Int) : String :=
  (if minutes < 0 then "-" else "+") ++ Date.padded 2 (minutes.natAbs / 60) ++ ":" ++
    Date.padded 2 (minutes.natAbs % 60)

/-- A moment as it is shown: date, time and zone, with microseconds only if there are any. -/
def display (m : Moment) : String :=
  let time := ":".intercalate ([m.hour, m.minute, m.second].map (Date.padded 2))
  let fraction := if m.microsecond = 0 then "" else "." ++ Date.padded 6 m.microsecond
  m.date.display ++ " " ++ time ++ fraction ++ (m.offset.map offsetDisplay).getD ""

/-- The literal text of a moment: seconds and microseconds are left out from the end while zero. -/
def literal (m : Moment) : String :=
  let fields := [m.date.year, m.date.month, m.date.day, m.hour, m.minute] ++
    (if m.microsecond ≠ 0 then [m.second, m.microsecond]
     else if m.second ≠ 0 then [m.second] else [])
  let zone := match m.offset with
    | none => ""
    | some o => ", tzinfo=" ++ offsetLiteral o
  "datetime.datetime(" ++ ", ".intercalate (fields.map toString) ++ zone ++ ")"

end Moment

end CheckedCalls
