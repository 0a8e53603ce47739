import Actionbook.Decimal.Notation

/-!
# Dates and moments

Calendar dates of the years 1 to 9999 and moments of such a day, with or without an offset from
universal time, and their texts.
-/

namespace Actionbook

/-- A calendar date. -/
structure Date where
  year : Nat
  month : Nat
  day : Nat
deriving DecidableEq, Repr

/-- A date with a time of day; `offset` is the distance from universal time in seconds. -/
structure Moment where
  date : Date
  hour : Nat
  minute : Nat
  second : Nat
  microsecond : Nat
  offset : Option Int
deriving DecidableEq, Repr

/-- Why numbers form no date or moment. -/
inductive CalendarError where
  | year (n : Nat)
  | month
  | day
  | hour
  | minute
  | second
  | offset (seconds : Int)
deriving DecidableEq, Repr

namespace Date

/-- Leap years are divisible by 4, but by 100 only if by 400. -/
def isLeap (year : Nat) : Bool := year % 4 == 0 && (year % 100 != 0 || year % 400 == 0)

def daysIn (year month : Nat) : Nat :=
  if month = 2 then (if isLeap year then 29 else 28)
  else if month = 4 ∨ month = 6 ∨ month = 9 ∨ month = 11 then 30
  else 31

/-- The date with the given year, month and day. -/
def make (year month day : Nat) : Except CalendarError Date :=
  if year = 0 ∨ year > 9999 then .error (.year year)
  else if month = 0 ∨ month > 12 then .error .month
  else if day = 0 ∨ day > daysIn year month then .error .day
  else .ok ⟨year, month, day⟩

/-- The number of days from the start of year 1. -/
def ordinal (d : Date) : Nat :=
  let years := d.year - 1
  365 * years + years / 4 - years / 100 + years / 400 +
    ((List.range (d.month - 1)).map fun m => daysIn d.year (m + 1)).foldr (· + ·) 0 + d.day

/-- A number with zeros in front up to the given width. -/
def padded (width n : Nat) : String :=
  let digits := Decimal.digitsOf n
  String.ofList (List.replicate (width - digits.length) '0' ++ digits)

/-- Year, month and day, joined by hyphens. -/
def text (d : Date) : String :=
  padded 4 d.year ++ "-" ++ padded 2 d.month ++ "-" ++ padded 2 d.day

end Date

namespace Moment

/-- The moment of a day with the given time and offset. -/
def make (year month day hour minute second microsecond : Nat) (offset : Option Int) :
    Except CalendarError Moment := do
  match offset with
  | some s => if s.natAbs ≥ 86400 then throw (.offset s)
  | none => pure ()
  let date ← Date.make year month day
  if hour > 23 then throw .hour
  if minute > 59 then throw .minute
  if second > 59 then throw .second
  return ⟨date, hour, minute, second, microsecond, offset⟩

/-- Microseconds from the start of year 1, in universal time if there is an offset. -/
def instant (m : Moment) : Int :=
  let seconds : Int := 86400 * m.date.ordinal + 3600 * m.hour + 60 * m.minute + m.second
  (seconds - m.offset.getD 0) * 1000000 + m.microsecond

/-- The text of an offset: a sign, hours and minutes. -/
def offsetText (seconds : Int) : String :=
  let minutes := seconds.natAbs / 60
  (if seconds < 0 then "-" else "+") ++ Date.padded 2 (minutes / 60) ++ ":" ++ Date.padded 2 (minutes % 60)

/-- Date and time with `separator` between them, a fraction if it is not zero, and the offset. -/
def text (separator : String) (m : Moment) : String :=
  m.date.text ++ separator ++ Date.padded 2 m.hour ++ ":" ++ Date.padded 2 m.minute ++ ":" ++
    Date.padded 2 m.second ++
    (if m.microsecond = 0 then "" else "." ++ Date.padded 6 m.microsecond) ++
    (match m.offset with | some s => offsetText s | none => "")

end Moment

end Actionbook
