/-!
# The date and time as text

The text of an instant, given as the number of seconds since the start of 1970, in universal time:
`Thu Jan 01 00:00:00 +00:00 1970`.

Days are counted in years that start in March, so that the leap day comes last; 400 such years are
146097 days.
-/

namespace AtomScript

/-- A day of the calendar. -/
structure CalendarDay where
  year : Nat
  /-- From 1 to 12. -/
  month : Nat
  /-- From 1 to 31. -/
  day : Nat
  deriving DecidableEq, Inhabited, Repr

namespace CalendarDay

/-- The day that is `days` days after the first of January 1970. -/
def ofDays (days : Nat) : CalendarDay :=
  let shifted := days + 719468
  let cycle := shifted / 146097
  let inCycle := shifted % 146097
  let yearInCycle := (inCycle - inCycle / 1460 + inCycle / 36524 - inCycle / 146096) / 365
  let inYear := inCycle - (365 * yearInCycle + yearInCycle / 4 - yearInCycle / 100)
  let fromMarch := (5 * inYear + 2) / 153
  let month := if fromMarch < 10 then fromMarch + 3 else fromMarch - 9
  { year := yearInCycle + 400 * cycle + (if month ≤ 2 then 1 else 0)
    month := month
    day := inYear - (153 * fromMarch + 2) / 5 + 1 }

/-- The names of the months, January first. -/
def monthNames : List String :=
  ["Jan", "Feb", "Mar", "Apr", "May", "Jun", "Jul", "Aug", "Sep", "Oct", "Nov", "Dec"]

/-- The names of the days of the week, from that of the first of January 1970 on. -/
def weekdayNames : List String :=
  ["Thu", "Fri", "Sat", "Sun", "Mon", "Tue", "Wed"]

end CalendarDay

/-- A number below one hundred in two digits. -/
def twoDigits (n : Nat) : String :=
  if n < 10 then "0" ++ toString n else toString n

/-- The date and time after the given number of seconds since the start of 1970. -/
def clockText (seconds : Nat) : String :=
  let days := seconds / 86400
  let inDay := seconds % 86400
  let date := CalendarDay.ofDays days
  let time := ":".intercalate
    ([inDay / 3600, inDay / 60 % 60, inDay % 60].map twoDigits)
  " ".intercalate
    [CalendarDay.weekdayNames.getD (days % 7) "", CalendarDay.monthNames.getD (date.month - 1) "",
     twoDigits date.day, time, "+00:00", toString date.year]

example : clockText 0 = "Thu Jan 01 00:00:00 +00:00 1970" := by decide +kernel

example : clockText 951782399 = "Mon Feb 28 23:59:59 +00:00 2000" := by decide +kernel

example : CalendarDay.ofDays 11016 = ⟨2000, 2, 29⟩ := by decide +kernel

end AtomScript
