/-!
# Dates and times

## Contents

The date and time of day of a moment in the Gregorian calendar, and its text.
-/

namespace PostingIndex

namespace Calendar

structure Date where
  year : Nat
  month : Nat
  day : Nat
deriving DecidableEq

/-- The number of days from 1 March of year 0 to 1 January 1970. -/
def epochDay : Nat :=
  719468

/--
The date that lies some days after 1 January 1970.  Years are taken to start in
March, so that a leap day is the last of its year, and 400 years have 146097
days.
-/
def dateOfDay (day : Nat) : Date :=
  let sinceMarch := day + epochDay
  let cycle := sinceMarch / 146097
  let inCycle := sinceMarch % 146097
  let yearInCycle :=
    (inCycle - inCycle / 1460 + inCycle / 36524 - inCycle / 146096) / 365
  let dayInYear :=
    inCycle - (365 * yearInCycle + yearInCycle / 4 - yearInCycle / 100)
  let monthFromMarch := (5 * dayInYear + 2) / 153
  let month := if monthFromMarch < 10 then monthFromMarch + 3 else monthFromMarch - 9
  { year := cycle * 400 + yearInCycle + (if month ≤ 2 then 1 else 0)
    month
    day := dayInYear - (153 * monthFromMarch + 2) / 5 + 1 }

def padded (width value : Nat) : String :=
  let digits := toString value
  String.ofList (List.replicate (width - digits.length) '0') ++ digits

def yearText (year : Nat) : String :=
  if year ≤ 9999 then padded 4 year else s!"+{year}"

def dateText (date : Date) : String :=
  s!"{yearText date.year}-{padded 2 date.month}-{padded 2 date.day}"

def timeText (second : Nat) : String :=
  s!"{padded 2 (second / 3600)}:{padded 2 (second / 60 % 60)}:{padded 2 (second % 60)}"

/-- The last second of the last year that has a text, 262142. -/
def lastSecond : Nat :=
  8210266876799

def momentText (micros : Nat) : String :=
  let seconds := micros / 1000000
  if seconds ≤ lastSecond then
    s!"{dateText (dateOfDay (seconds / 86400))} {timeText (seconds % 86400)} UTC"
  else
    s!"{micros} us"

end Calendar

end PostingIndex
