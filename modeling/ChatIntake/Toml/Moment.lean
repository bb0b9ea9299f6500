import ChatIntake.Decimal.Digits
import ChatIntake.Text.Reader

/-!
# Dates and times

A moment is a date, a time of day, or both, and then possibly an offset. Only days
of the calendar and times of the clock are read; a leap second is one of them. A
moment is written in one way, whatever spelling it was read from.
-/

namespace ChatIntake.Toml

open ChatIntake.Decimal ChatIntake.Text

/-- A day of the calendar. -/
structure Date where
  year : Nat
  month : Nat
  day : Nat
deriving DecidableEq

/-- A time of day, with a fraction of a second in nanoseconds. -/
structure Time where
  hour : Nat
  minute : Nat
  second : Nat
  nanosecond : Nat
deriving DecidableEq

/-- An offset from universal time. -/
inductive Offset where
  | utc
  | minutes (value : Int)
deriving DecidableEq

/-- A date, a time, or both, and then possibly an offset. -/
inductive Moment where
  | date (date : Date)
  | time (time : Time)
  | both (date : Date) (time : Time) (offset? : Option Offset)
deriving DecidableEq

namespace Moment

/-- Whether February has a twenty-ninth day. -/
def isLeap (year : Nat) : Bool :=
  year % 4 == 0 && (year % 100 != 0 || year % 400 == 0)

/-- The number of days of a month. -/
def daysIn (year month : Nat) : Nat :=
  if month = 2 then (if isLeap year then 29 else 28)
  else if month = 4 ∨ month = 6 ∨ month = 9 ∨ month = 11 then 30
  else 31

/-- Read exactly `count` digits that continue the number `n`. -/
def readNumber : (count : Nat) → (n : Nat) → Reader Nat
  | 0, n, s => some (n, s)
  | _ + 1, _, [] => none
  | count + 1, n, c :: rest => if c.isDigit then readNumber count (extend n c) rest else none

/-- Read a separator and then two digits. -/
def readPair (separator : Char) : Reader Nat
  | [] => none
  | c :: rest => if c = separator then readNumber 2 0 rest else none

/-- Read a date. -/
def readDate : Reader Date := fun s => do
  let (year, s) ← readNumber 4 0 s
  let (month, s) ← readPair '-' s
  let (day, s) ← readPair '-' s
  if 1 ≤ month ∧ month ≤ 12 ∧ 1 ≤ day ∧ day ≤ daysIn year month then
    return (⟨year, month, day⟩, s)
  else none

/-- The nanoseconds that the digits of a fraction stand for; the tenth and later ones
do not count. -/
def nanoseconds (ds : List Char) : Nat :=
  ofDigits ((ds.take 9) ++ List.replicate (9 - ds.length) '0')

/-- Read the fraction of a second, if there is one. -/
def readFraction (s : List Char) : Nat × List Char :=
  match s with
  | [] => (0, [])
  | c :: rest =>
    if c = '.' ∧ (rest.takeWhile Char.isDigit).isEmpty = false then
      (nanoseconds (rest.takeWhile Char.isDigit), rest.dropWhile Char.isDigit)
    else (0, c :: rest)

/-- Read a time of day. -/
def readTime : Reader Time := fun s => do
  let (hour, s) ← readNumber 2 0 s
  let (minute, s) ← readPair ':' s
  let (second, s) ← readPair ':' s
  if hour ≤ 23 ∧ minute ≤ 59 ∧ second ≤ 60 then
    let (nanosecond, s) := readFraction s
    return (⟨hour, minute, second, nanosecond⟩, s)
  else none

/-- Read the hours and minutes of an offset. -/
def readMinutes : Reader Nat := fun s => do
  let (hours, s) ← readNumber 2 0 s
  let (minutes, s) ← readPair ':' s
  if hours ≤ 23 ∧ minutes ≤ 59 then return (60 * hours + minutes, s) else none

/-- Read an offset. -/
def readOffset : Reader Offset
  | [] => none
  | c :: rest =>
    if c = 'Z' ∨ c = 'z' then some (.utc, rest)
    else if c = '+' then (readMinutes.map fun m : Nat => Offset.minutes m) rest
    else if c = '-' then (readMinutes.map fun m : Nat => Offset.minutes (-m)) rest
    else none

/-- Read a time after a date, and an offset after the time, if there is one. -/
def readAfter (date : Date) : Reader Moment := fun s =>
  match readTime s with
  | none => none
  | some (clock, s) =>
    match readOffset s with
    | none => some (both date clock none, s)
    | some (offset, s) => some (both date clock (some offset), s)

/-- Read a moment. Between a date and a time stands a `T` or one space; a space that
no time follows is not part of the moment. -/
def read : Reader Moment := fun s =>
  match readDate s with
  | none => (readTime.map time) s
  | some (day, []) => some (date day, [])
  | some (day, c :: rest) =>
    if c = 'T' ∨ c = 't' then readAfter day rest
    else if c = ' ' then
      match readAfter day rest with
      | none => some (date day, c :: rest)
      | some result => some result
    else some (date day, c :: rest)

/-- The digits of a number with zeros in front to fill the width. -/
def padded (width n : Nat) : List Char :=
  List.replicate (width - (digits n).length) '0' ++ digits n

/-- The text of a date. -/
def writeDate (date : Date) : List Char :=
  padded 4 date.year ++ '-' :: (padded 2 date.month ++ '-' :: padded 2 date.day)

/-- The digits of a fraction without zeros at the end, after a point; none for zero. -/
def writeFraction (nanosecond : Nat) : List Char :=
  if nanosecond = 0 then []
  else '.' :: ((padded 9 nanosecond).reverse.dropWhile (· = '0')).reverse

/-- The text of a time. -/
def writeTime (time : Time) : List Char :=
  padded 2 time.hour ++ ':' :: (padded 2 time.minute ++
    ':' :: (padded 2 time.second ++ writeFraction time.nanosecond))

/-- The text of an offset. -/
def writeOffset : Offset → List Char
  | .utc => ['Z']
  | .minutes value =>
    (if value < 0 then '-' else '+') :: (padded 2 (value.natAbs / 60) ++
      ':' :: padded 2 (value.natAbs % 60))

/-- The text of a moment. -/
def write : Moment → List Char
  | date day => writeDate day
  | time clock => writeTime clock
  | both day clock none => writeDate day ++ 'T' :: writeTime clock
  | both day clock (some offset) => writeDate day ++ 'T' :: (writeTime clock ++ writeOffset offset)

end Moment

end ChatIntake.Toml
