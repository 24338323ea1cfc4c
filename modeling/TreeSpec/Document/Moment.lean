import TreeSpec.Document.Place
import TreeSpec.Failure

/-!
# Dates and times in a document

A date is written with hyphens. A time of day may follow it, with a fraction of a second and with
the offset of local time. The form is checked first, the calendar and the clock afterwards.
-/

namespace TreeSpec.Document

set_option autoImplicit false

structure Date where
  year : Nat
  month : Nat
  day : Nat
  deriving DecidableEq, Repr

structure Moment where
  date : Date
  hour : Nat
  minute : Nat
  second : Nat
  microsecond : Nat
  /-- How many minutes local time is ahead, if that is known. -/
  offset : Option Int
  deriving DecidableEq, Repr

def padded (width n : Nat) : Text :=
  let digits : Text := toString n
  Text.repeated (width - digits.length) '0' ++ digits

namespace Date

def isLeap (year : Nat) : Bool := year % 4 = 0 && (year % 100 != 0 || year % 400 = 0)

def daysOf (year month : Nat) : Nat :=
  if month = 2 then if isLeap year then 29 else 28
  else if [4, 6, 9, 11].contains month then 30
  else 31

def check (d : Date) : Except Failure Date :=
  if d.year = 0 then .error (.noSuchTime .year)
  else if d.month = 0 || 12 < d.month then .error (.noSuchTime .month)
  else if d.day = 0 || daysOf d.year d.month < d.day then .error (.noSuchTime .day)
  else .ok d

def text (d : Date) : Text :=
  padded 4 d.year ++ "-" ++ padded 2 d.month ++ "-" ++ padded 2 d.day

/-- The parts of the date as they are written in a listing of values. -/
def shownParts (d : Date) : List Text := [toString d.year, toString d.month, toString d.day]

/-- The number of days from the first of January of the year one. -/
def dayNumber (d : Date) : Nat :=
  let y := d.year - 1
  365 * y + y / 4 - y / 100 + y / 400 +
    ((List.range (d.month - 1)).map fun m => daysOf d.year (m + 1)).foldl (· + ·) 0 + (d.day - 1)

end Date

namespace Moment

def check (m : Moment) : Except Failure Moment := do
  let seconds := m.offset.getD 0 * 60
  if seconds ≤ -86400 || 86400 ≤ seconds then throw (.offsetTooLarge seconds)
  let _ ← m.date.check
  if 23 < m.hour then throw (.noSuchTime .hour)
  if 59 < m.minute then throw (.noSuchTime .minute)
  if 59 < m.second then throw (.noSuchTime .second)
  return m

def offsetText (minutes : Int) : Text :=
  (if minutes < 0 then "-" else "+") ++ padded 2 (minutes.natAbs / 60) ++ ":" ++
    padded 2 (minutes.natAbs % 60)

def text (m : Moment) : Text :=
  m.date.text ++ " " ++ padded 2 m.hour ++ ":" ++ padded 2 m.minute ++ ":" ++ padded 2 m.second ++
    (if m.microsecond = 0 then ([] : Text) else "." ++ padded 6 m.microsecond) ++
    (m.offset.map offsetText).getD []

/-- The offset as it is written in a listing of values. -/
def shownOffset (minutes : Int) : Text :=
  if minutes = 0 then "tzinfo=datetime.timezone.utc"
  else "tzinfo=datetime.timezone(" ++ shownSpan (60 * minutes) ++ ")"

/-- The moment as it is written in a listing of values. -/
def shown (m : Moment) : Text :=
  let seconds :=
    if m.microsecond != 0 then [m.second, m.microsecond]
    else if m.second != 0 then [m.second] else []
  "datetime.datetime(" ++
    Text.joined ", "
      (m.date.shownParts ++ ([m.hour, m.minute] ++ seconds).map (fun n => (toString n : Text)) ++
        (m.offset.map shownOffset).toList) ++ ")"

/-- The minutes from the first of January of the year one, by the clock of offset zero. -/
def minutes (m : Moment) : Int :=
  ((m.date.dayNumber * 24 + m.hour) * 60 + m.minute : Nat) - m.offset.getD 0

/-- The two are one moment. A local time whose offset is not known is no moment of another clock. -/
def same (m n : Moment) : Bool :=
  m.offset.isSome = n.offset.isSome && m.minutes = n.minutes && m.second = n.second &&
    m.microsecond = n.microsecond

end Moment

/-! ## Reading -/

def decimalValue (cs : Text) : Nat :=
  cs.foldl (fun n c => 10 * n + c.digit) 0

/-- Between `low` and `high` digits at the start of a text, and what follows them. -/
def someDigits? (low high : Nat) (cs : Text) : Option (Text × Text) :=
  let ds := (cs.take high).takeWhile CodePoint.isDigit
  if low ≤ ds.length then some (ds, cs.drop ds.length) else none

def after? (mark : CodePoint) (cs : Text) : Option (Text) :=
  if cs.head? = some mark then some cs.tail else none

/-- A year, a month and a day, and what follows them. The month and the day have at least `low`
digits. -/
def datePart? (low : Nat) (cs : Text) : Option (Date × Text) := do
  let (year, cs) ← someDigits? 4 4 cs
  let (month, cs) ← someDigits? low 2 (← after? '-' cs)
  let (day, cs) ← someDigits? low 2 (← after? '-' cs)
  return (⟨decimalValue year, decimalValue month, decimalValue day⟩, cs)

/-- What follows the sign between a date and a time: a letter, or spaces and tabs. -/
def afterDate? (cs : Text) : Option (Text) :=
  match cs with
  | c :: rest =>
    if c = 'T' || c = 't' then some rest
    else if isSpaceOrTab c then some (rest.dropWhile isSpaceOrTab)
    else none
  | [] => none

/-- The microseconds of the digits of a fraction, of which six count. -/
def microseconds (ds : Text) : Nat :=
  let six := ds.take 6
  decimalValue (six ++ Text.repeated (6 - six.length) '0')

/-- The offset at the end of a text, which may be left out. -/
def offset? (cs : Text) : Option (Option Int) :=
  match cs.dropWhile isSpaceOrTab with
  | [] => if cs.isEmpty then some none else none
  | [.char 'Z'] => some (some 0)
  | sign :: rest => do
    if sign != '+' && sign != '-' then none
    let (hour, rest) ← someDigits? 1 2 rest
    let minute ← if rest.isEmpty then some [] else do
      let (minute, rest) ← someDigits? 2 2 (← after? ':' rest)
      if rest.isEmpty then some minute else none
    let minutes : Int := (60 * decimalValue hour + decimalValue minute : Nat)
    return some (if sign = '-' then -minutes else minutes)

def date? (cs : Text) : Option Date := do
  let (date, rest) ← datePart? 2 cs
  if rest.isEmpty then some date else none

def moment? (cs : Text) : Option Moment := do
  let (date, cs) ← datePart? 1 cs
  let (hour, cs) ← someDigits? 1 2 (← afterDate? cs)
  let (minute, cs) ← someDigits? 2 2 (← after? ':' cs)
  let (second, cs) ← someDigits? 2 2 (← after? ':' cs)
  let (fraction, cs) :=
    match cs with
    | .char '.' :: cs => (cs.takeWhile CodePoint.isDigit, cs.dropWhile CodePoint.isDigit)
    | cs => ([], cs)
  let offset ← offset? cs
  return ⟨date, decimalValue hour, decimalValue minute, decimalValue second, microseconds fraction,
    offset⟩

end TreeSpec.Document
