/-!
# Dates and times

Dates of the proleptic Gregorian calendar, from year 1 to year 9999, and times of a day with a
microsecond and an optional offset from universal time. `DateTime.ofMillis` turns a count of
milliseconds since the start of 1970 into a date and time.
-/

namespace TreeScript

/-- A day of the calendar. -/
structure Date where
  /-- The year, from 1 to 9999. -/
  year : Nat
  /-- The month, from 1 to 12. -/
  month : Nat
  /-- The day of the month, from 1. -/
  day : Nat
  deriving DecidableEq, Repr, Inhabited

/-- A day with a time of day. -/
structure DateTime where
  date : Date
  /-- The hour, from 0 to 23. -/
  hour : Nat
  /-- The minute, from 0 to 59. -/
  minute : Nat
  /-- The second, from 0 to 59. -/
  second : Nat
  micro : Nat
  /-- Minutes ahead of universal time, when the offset is known. -/
  offset : Option Int
  deriving DecidableEq, Repr, Inhabited

namespace Date

/-- Every fourth year is a leap year, except every hundredth that is not a four-hundredth. -/
def isLeap (year : Nat) : Bool := year % 4 == 0 && (year % 100 != 0 || year % 400 == 0)

def daysInMonth (year month : Nat) : Nat :=
  if month = 2 then (if isLeap year then 29 else 28)
  -- the months with thirty days
  else if month = 4 ∨ month = 6 ∨ month = 9 ∨ month = 11 then 30
  else 31

/-- Why three numbers are no date. -/
inductive Fault where
  /-- The year is not between 1 and 9999. -/
  | year (year : Nat)
  /-- The month is not between 1 and 12. -/
  | month
  /-- The month has no such day. -/
  | day
  deriving DecidableEq, Repr

def Fault.message : Fault → String
  | .year y => s!"year {y} is out of range"
  | .month => "month must be in 1..12"
  | .day => "day is out of range for month"

/-- The date with the given year, month and day. -/
def make? (year month day : Nat) : Except Fault Date :=
  if year < 1 ∨ 9999 < year then .error (.year year)
  else if month < 1 ∨ 12 < month then .error .month
  else if day < 1 ∨ daysInMonth year month < day then .error .day
  else .ok ⟨year, month, day⟩

/-- A number with leading zeros up to the given width. -/
def padded (width n : Nat) : String :=
  let digits := Nat.toDigits 10 n
  String.ofList (List.replicate (width - digits.length) '0' ++ digits)

/-- A date as year, month and day joined by hyphens. -/
def text (d : Date) : String := padded 4 d.year ++ "-" ++ padded 2 d.month ++ "-" ++ padded 2 d.day

/-- Days from the start of the year 1 to the start of a year. -/
def daysBeforeYear (year : Nat) : Nat :=
  let y := year - 1
  365 * y + y / 4 - y / 100 + y / 400

/-- Days from the start of the year to the start of a month. -/
def daysBeforeMonth (year month : Nat) : Nat :=
  ((List.range (month - 1)).map fun m => daysInMonth year (m + 1)).foldl (· + ·) 0

/-- Days from the start of the year 1 to a date. -/
def ordinal (d : Date) : Nat := daysBeforeYear d.year + daysBeforeMonth d.year d.month + (d.day - 1)

/-- The date a number of days after the start of a month. -/
def ofMonthDays (year : Nat) : Nat → Nat → Nat → Date
  | month, days, 0 => ⟨year, month, days + 1⟩
  | month, days, fuel + 1 =>
    if days < daysInMonth year month then ⟨year, month, days + 1⟩
    else ofMonthDays year (month + 1) (days - daysInMonth year month) fuel

/-- The date a number of days after the start of the year 1. -/
def ofOrdinal (days : Nat) : Date :=
  -- The guess is at most one year off, because a year has 365.2425 days on average.
  let guess := days * 400 / 146097 + 1
  let year := if daysBeforeYear (guess + 1) ≤ days then guess + 1
    else if daysBeforeYear guess ≤ days then guess else guess - 1
  ofMonthDays year 1 (days - daysBeforeYear year) 12

/-- Whether one date is before another. -/
def before (a b : Date) : Bool := a.ordinal < b.ordinal

end Date

namespace DateTime

/-- Why some numbers are no time of day. -/
inductive Fault where
  | date (fault : Date.Fault)
  /-- The hour is above 23. -/
  | hour
  /-- The minute is above 59. -/
  | minute
  /-- The second is above 59. -/
  | second
  deriving DecidableEq, Repr

def Fault.message : Fault → String
  | .date fault => fault.message
  | .hour => "hour must be in 0..23"
  | .minute => "minute must be in 0..59"
  | .second => "second must be in 0..59"

/-- The date and time with the given parts. -/
def make? (year month day hour minute second micro : Nat) (offset : Option Int) :
    Except Fault DateTime :=
  match Date.make? year month day with
  | .error fault => .error (.date fault)
  | .ok date =>
    if 23 < hour then .error .hour
    else if 59 < minute then .error .minute
    else if 59 < second then .error .second
    else .ok ⟨date, hour, minute, second, micro, offset⟩

/-- An offset from universal time as sign, hours and minutes. -/
def offsetText (minutes : Int) : String :=
  (if minutes < 0 then "-" else "+") ++ Date.padded 2 (minutes.natAbs / 60) ++ ":" ++
    Date.padded 2 (minutes.natAbs % 60)

/-- A date and a time with `separator` between them. The fraction of a second and the offset are
left out when there is none. -/
def text (separator : String) (t : DateTime) : String :=
  t.date.text ++ separator ++ Date.padded 2 t.hour ++ ":" ++ Date.padded 2 t.minute ++ ":" ++
    Date.padded 2 t.second ++
    (if t.micro = 0 then "" else "." ++ Date.padded 6 t.micro) ++
    (match t.offset with
      | none => ""
      | some minutes => offsetText minutes)

/-- Days from the start of the year 1 to the start of 1970. -/
def epochOrdinal : Nat := 719162

/-- The universal date and time a number of milliseconds after the start of 1970. -/
def ofMillis (millis : Nat) : DateTime :=
  let seconds := millis / 1000
  let rest := seconds % 86400
  { date := Date.ofOrdinal (epochOrdinal + seconds / 86400)
    hour := rest / 3600
    minute := rest / 60 % 60
    second := rest % 60
    micro := millis % 1000 * 1000
    offset := some 0 }

/-- Microseconds from the start of the year 1, less the offset from universal time. -/
def instant (t : DateTime) : Int :=
  let local_ : Int :=
    (((t.date.ordinal * 24 + t.hour) * 60 + t.minute) * 60 + t.second : Nat) * 1000000 + t.micro
  local_ - (t.offset.getD 0) * 60000000

/-- Two times are the same when both have an offset and name one instant, or neither has one and
they read the same. -/
def same (a b : DateTime) : Bool :=
  a.offset.isSome == b.offset.isSome && a.instant == b.instant

end DateTime

end TreeScript
