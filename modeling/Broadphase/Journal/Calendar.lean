/-!
The calendar date and time of day of an instant counted in milliseconds from
the start of 1970, in the Gregorian calendar without time zones. Years are
counted from 1 March here, so that the leap day is the last day of its year.
-/

namespace Broadphase

structure Timestamp where
  year : Int
  month : Nat
  day : Nat
  hour : Nat
  minute : Nat
  second : Nat
  millisecond : Nat
  deriving DecidableEq, Repr

namespace Timestamp

/-- Year, month and day of a number of days since 1 January 1970. A cycle of
400 years has 146097 days, and 719468 days lie between 1 March of year zero and
that date. -/
def dateOfDays (days : Int) : Int × Nat × Nat :=
  let sinceMarch := days + 719468
  let cycle := sinceMarch / 146097
  let dayOfCycle := (sinceMarch % 146097).toNat
  let yearOfCycle :=
    (dayOfCycle - dayOfCycle / 1460 + dayOfCycle / 36524 - dayOfCycle / 146096) / 365
  let dayOfYear := dayOfCycle - (365 * yearOfCycle + yearOfCycle / 4 - yearOfCycle / 100)
  let monthFromMarch := (5 * dayOfYear + 2) / 153
  let day := dayOfYear - (153 * monthFromMarch + 2) / 5 + 1
  let month := if monthFromMarch < 10 then monthFromMarch + 3 else monthFromMarch - 9
  let year := 400 * cycle + yearOfCycle + if month ≤ 2 then 1 else 0
  (year, month, day)

def ofMilliseconds (instant : Int) : Timestamp :=
  let (year, month, day) := dateOfDays (instant / 86400000)
  let rest := (instant % 86400000).toNat
  { year, month, day
    hour := rest / 3600000
    minute := rest / 60000 % 60
    second := rest / 1000 % 60
    millisecond := rest % 1000 }

/-- A number with zeros in front up to a width. -/
def padded (width n : Nat) : String :=
  let digits := Nat.toDigits 10 n
  String.ofList (List.replicate (width - digits.length) '0' ++ digits)

/-- A year in four digits. A year outside of `0` to `9999` carries its sign. -/
def yearText (year : Int) : String :=
  if year < 0 then "-" ++ padded 4 year.natAbs
  else if 9999 < year then "+" ++ padded 4 year.natAbs
  else padded 4 year.natAbs

/-- Date and time to the millisecond, as in `1970-01-01 00:00:00.000`. -/
def text (t : Timestamp) : String :=
  yearText t.year ++ "-" ++ padded 2 t.month ++ "-" ++ padded 2 t.day ++ " " ++
    padded 2 t.hour ++ ":" ++ padded 2 t.minute ++ ":" ++ padded 2 t.second ++ "." ++
    padded 3 t.millisecond

end Timestamp

end Broadphase
