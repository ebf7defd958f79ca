import FaultChain.Number.Decimal
import FaultChain.Number.Word

/-!
# Dates

Moments are nanoseconds since the beginning of 1970, in the Gregorian calendar and without a time
zone.

* `Date.ofSeconds`: the date of a second.
* `Date.stamp`: a date as it is used in names.
* `timestamp?`: a moment as it is written into documents.
-/

namespace FaultChain

/-- A day and a second of it. -/
structure Date where
  year : Int
  month : Nat
  day : Nat
  hour : Nat
  minute : Nat
  second : Nat
  deriving DecidableEq

namespace Date

def eraDays : Int := 146097

/-- Year, month and day of a day, counted from the beginning of 1970. The computation counts years
from March, so that the day that may be missing comes last. -/
def ofDays (days : Int) : Int × Nat × Nat :=
  let shifted := days + 719468
  let era := shifted.fdiv eraDays
  let dayOfEra := (shifted - era * eraDays).toNat
  let yearOfEra := (dayOfEra - dayOfEra / 1460 + dayOfEra / 36524 - dayOfEra / 146096) / 365
  let dayOfYear := dayOfEra - (365 * yearOfEra + yearOfEra / 4 - yearOfEra / 100)
  let fromMarch := (5 * dayOfYear + 2) / 153
  let day := dayOfYear - (153 * fromMarch + 2) / 5 + 1
  let month := if fromMarch < 10 then fromMarch + 3 else fromMarch - 9
  (yearOfEra + era * 400 + if month ≤ 2 then 1 else 0, month, day)

/-- The first second that has a date of its own. -/
def earliest : Int := -9223372028741760000

/-- The second whose date a second shares: as many seconds as there are words have dates of their
own, and the dates of all others repeat them. -/
def cyclic (seconds : Int) : Int := earliest + (seconds - earliest) % Word64.count

/-- The date of a second. -/
def ofSeconds (seconds : Int) : Date :=
  let seconds := cyclic seconds
  let days := seconds.fdiv 86400
  let rest := (seconds - days * 86400).toNat
  let (year, month, day) := ofDays days
  { year := year
    month := month
    day := day
    hour := rest / 3600
    minute := rest / 60 % 60
    second := rest % 60 }

def yearText (year : Int) : String :=
  if year < 0 then "-" ++ Decimal.pad 4 year.natAbs else Decimal.pad 4 year.natAbs

def dayText (d : Date) : String :=
  yearText d.year ++ "-" ++ Decimal.pad 2 d.month ++ "-" ++ Decimal.pad 2 d.day

def timeText (d : Date) (separator : String) : String :=
  Decimal.pad 2 d.hour ++ separator ++ Decimal.pad 2 d.minute ++ separator ++ Decimal.pad 2 d.second

def stamp (d : Date) : String := d.dayText ++ "-" ++ d.timeText "-"

end Date

/-- The fraction of a second, without zeros at the end. -/
def fractionText (nanos : Nat) : String :=
  match ((Decimal.pad 9 nanos).toList.reverse.dropWhile (· == '0')).reverse with
  | [] => ""
  | digits => String.ofList ('.' :: digits)

/-- A moment as it is written into documents, if its year has four digits. -/
def timestamp? (nanos : Int) : Option String :=
  let seconds := nanos.fdiv 1000000000
  let d := Date.ofSeconds seconds
  if 0 ≤ d.year && d.year ≤ 9999 then
    some (d.dayText ++ "T" ++ d.timeText ":" ++
      fractionText (nanos - seconds * 1000000000).toNat ++ "Z")
  else none

end FaultChain
