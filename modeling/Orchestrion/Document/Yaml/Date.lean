import Orchestrion.Decimal.Numeral

set_option autoImplicit false

/-!
# Dates

A plain text may be a date, alone or with a time of the day and the distance of a
time zone.  It is kept as it is written, but there has to be such a day, such a
time and such a distance.
-/

namespace Orchestrion.Document.Yaml

/-- One digit or two, and what follows them. -/
def twoDigits? : List Char → Option (List Char × List Char)
  | c :: d :: rest =>
    if !Text.isAsciiDigit c then none
    else if Text.isAsciiDigit d then some ([c, d], rest)
    else some ([c], d :: rest)
  | [c] => if Text.isAsciiDigit c then some ([c], []) else none
  | [] => none

/-- Two digits after a mark, and what follows them. -/
def afterMark? (mark : Char) (isLong : Bool) : List Char → Option (List Char × List Char)
  | c :: rest =>
    if c != mark then none
    else (twoDigits? rest).filter fun found => !isLong || found.1.length == 2
  | [] => none

/-! ## Days -/

/-- A day as it is written. -/
structure Day where
  year : List Char
  month : List Char
  day : List Char

/-- The day that a text begins with, and what follows it. -/
def day? (s : List Char) : Option (Day × List Char) := do
  let year := s.take 4
  if year.length == 4 && year.all Text.isAsciiDigit then
    let (month, rest) ← afterMark? '-' false (s.drop 4)
    let (day, rest) ← afterMark? '-' false rest
    return (⟨year, month, day⟩, rest)
  else none

/-- Whether a year has a day more. -/
def isLeapYear (year : Nat) : Bool :=
  year % 4 == 0 && (year % 100 != 0 || year % 400 == 0)

/-- The number of days in a month. -/
def daysIn (year month : Nat) : Nat :=
  if month == 2 then (if isLeapYear year then 29 else 28)
  else if [4, 6, 9, 11].contains month then 30
  else 31

/-- Whether there is a day. -/
def Day.exists (d : Day) : Bool :=
  let year := Decimal.ofDigits d.year
  let month := Decimal.ofDigits d.month
  let day := Decimal.ofDigits d.day
  1 ≤ year && 1 ≤ month && month ≤ 12 && 1 ≤ day && day ≤ daysIn year month

/-! ## Times -/

/-- A time of the day as it is written, without the places of its seconds. -/
structure Time where
  hour : List Char
  minute : List Char
  second : List Char

/-- The time that a text begins with, and what follows it. -/
def time? (s : List Char) : Option (Time × List Char) := do
  let (hour, rest) ← twoDigits? s
  let (minute, rest) ← afterMark? ':' true rest
  let (second, rest) ← afterMark? ':' true rest
  return (⟨hour, minute, second⟩, rest)

/-- Whether there is a time. -/
def Time.exists (t : Time) : Bool :=
  Decimal.ofDigits t.hour < 24 && Decimal.ofDigits t.minute < 60 && Decimal.ofDigits t.second < 60

/-- What follows the places of a number. -/
def afterPlaces : List Char → List Char
  | '.' :: rest => rest.dropWhile Text.isAsciiDigit
  | s => s

/-! ## Time zones -/

/-- The distance of a time zone as it is written. -/
structure Zone where
  sign : Char
  hour : List Char
  /-- the minutes, if there are any -/
  minute : Option (List Char)

/-- The distance of a time zone that a text is. -/
def zone? : List Char → Option Zone
  | sign :: s =>
    if sign != '+' && sign != '-' then none
    else
      match twoDigits? s with
      | none => none
      | some (hour, []) => some ⟨sign, hour, none⟩
      | some (hour, rest) =>
        match afterMark? ':' true rest with
        | some (minute, []) => some ⟨sign, hour, some minute⟩
        | _ => none
  | [] => none

/-- Whether there is a distance: it is less than a day. -/
def Zone.exists (z : Zone) : Bool :=
  60 * Decimal.ofDigits z.hour + Decimal.ofDigits (z.minute.getD []) < 24 * 60

/-! ## Dates -/

/-- Whether there is what a text says after a time; `none` for a text that does
not belong to a date. -/
def zoneExists? (s : List Char) : Option Bool :=
  if s.isEmpty then some true
  else
    let zone := s.dropWhile fun c => c == ' ' || c == '\t'
    if zone == ['Z'] then some true else (zone? zone).map Zone.exists

/-- What follows the mark or the blanks in front of a time. -/
def beforeTime? : List Char → Option (List Char)
  | c :: rest =>
    if c == 'T' || c == 't' then some rest
    else if c == ' ' || c == '\t' then some (rest.dropWhile fun c => c == ' ' || c == '\t')
    else none
  | [] => none

/-- Whether there is what a date says; `none` for a text that is no date. -/
def dateExists? (s : List Char) : Option Bool := do
  let (d, rest) ← day? s
  if rest.isEmpty then
    if d.month.length == 2 && d.day.length == 2 then return d.exists else none
  else
    let rest ← beforeTime? rest
    let (t, rest) ← time? rest
    let zone ← zoneExists? (afterPlaces rest)
    return d.exists && t.exists && zone

end Orchestrion.Document.Yaml
