/-
Dates and times of TOML.

A moment is a date, a time of day, or both; with both there may be an offset from universal time.

* `Moment.read?` : the moment that a whole text writes.
-/
import CollectorTemplate.Decimal.Reading

namespace CollectorTemplate.Toml

/-- A day of the calendar. -/
structure Date where
  year : Nat
  month : Nat
  day : Nat
  deriving Repr, DecidableEq, Inhabited

/-- A time of day.  Seconds may be left out, and the last may be a leap second. -/
structure Time where
  hour : Nat
  minute : Nat
  second : Option Nat
  /-- The digits of the fraction of a second. -/
  fraction : List Char
  deriving Repr, DecidableEq, Inhabited

/-- A date, a time of day, or both. -/
structure Moment where
  date : Option Date
  time : Option Time
  /-- The minutes by which the clock is ahead of universal time, if the moment says so. -/
  offset : Option Int
  deriving Repr, DecidableEq, Inhabited

/-- The number of `width` digits at the beginning of a text, and what follows it; it must not be
above `most`. -/
def digits? (width most : Nat) (text : List Char) : Option (Nat × List Char) :=
  let digits := text.take width
  if digits.length = width ∧ digits.all Char.isDigit ∧ Decimal.digitsValue digits ≤ most then
    some (Decimal.digitsValue digits, text.drop width)
  else none

/-- A text without the character it begins with. -/
def behind? (c : Char) : List Char → Option (List Char)
  | d :: rest => if d = c then some rest else none
  | [] => none

namespace Date

/-- Whether a year has a day more than others. -/
def isLeap (year : Nat) : Bool := year % 4 == 0 && (year % 100 != 0 || year % 400 == 0)

/-- The number of days in a month. -/
def daysIn (year month : Nat) : Nat :=
  if month = 2 then if isLeap year then 29 else 28
  else if month = 4 ∨ month = 6 ∨ month = 9 ∨ month = 11 then 30
  else 31

/-- The date at the beginning of a text, and what follows it. -/
def scan? (text : List Char) : Option (Date × List Char) := do
  let (year, rest) ← digits? 4 9999 text
  let (month, rest) ← digits? 2 12 (← behind? '-' rest)
  let (day, rest) ← digits? 2 (daysIn year month) (← behind? '-' rest)
  if month = 0 ∨ day = 0 then none else some (⟨year, month, day⟩, rest)

end Date

namespace Time

/-- The seconds of a time and their fraction, and what follows them. -/
def seconds? : List Char → Option ((Option Nat × List Char) × List Char)
  | ':' :: rest => do
    let (second, rest) ← digits? 2 60 rest
    match rest with
    | '.' :: rest =>
      let fraction := rest.takeWhile Char.isDigit
      if fraction.isEmpty then none
      else some ((some second, fraction), rest.dropWhile Char.isDigit)
    | rest => some ((some second, []), rest)
  | rest => some ((none, []), rest)

/-- The time at the beginning of a text, and what follows it. -/
def scan? (text : List Char) : Option (Time × List Char) := do
  let (hour, rest) ← digits? 2 23 text
  let (minute, rest) ← digits? 2 59 (← behind? ':' rest)
  let ((second, fraction), rest) ← seconds? rest
  return (⟨hour, minute, second, fraction⟩, rest)

end Time

namespace Moment

/-- The hours and minutes of an offset, which nothing follows. -/
def minutes? (text : List Char) : Option Int := do
  let (hours, rest) ← digits? 2 23 text
  let (minutes, rest) ← digits? 2 59 (← behind? ':' rest)
  if rest.isEmpty then some (60 * hours + minutes) else none

/-- The offset that a whole text writes, if it is not empty. -/
def offset? : List Char → Option (Option Int)
  | [] => some none
  | ['Z'] => some (some 0)
  | ['z'] => some (some 0)
  | '+' :: rest => (minutes? rest).map some
  | '-' :: rest => (minutes? rest).map fun n => some (-n)
  | _ => none

/-- The moment that a whole text writes.  A space or the letter T separates the time from the
date. -/
def read? (text : List Char) : Option Moment :=
  match Date.scan? text with
  | none => do
    let (time, rest) ← Time.scan? text
    if rest.isEmpty then some ⟨none, some time, none⟩ else none
  | some (date, []) => some ⟨some date, none, none⟩
  | some (date, c :: rest) => do
    if c ≠ 'T' ∧ c ≠ 't' ∧ c ≠ ' ' then none
    let (time, rest) ← Time.scan? rest
    return ⟨some date, some time, ← offset? rest⟩

end Moment

end CollectorTemplate.Toml
