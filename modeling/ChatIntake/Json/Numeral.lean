import ChatIntake.Decimal.Notation
import ChatIntake.Decimal.Scale
import ChatIntake.Json.Basic
import ChatIntake.Text.Reader

/-!
# Numerals

A numeral without a point and without an exponent stands for a whole number if it
fits 64 bits, with or without a sign; any other numeral, and minus zero, stands
for a floating-point number, which has to be finite.
-/

namespace ChatIntake

namespace Json.Numeral

open ChatIntake.Decimal ChatIntake.Text

/-- Exponents from `-5` to `15` are written positionally. -/
def layout : Layout := ⟨-5, 15⟩

/-- Read a row of at least one digit. -/
def readDigits : Reader (List Char) := fun s =>
  if (s.takeWhile Char.isDigit).isEmpty then none
  else some (s.takeWhile Char.isDigit, s.dropWhile Char.isDigit)

/-- Read a minus sign, if there is one. -/
def readMinus (s : List Char) : Bool × List Char :=
  match s with
  | [] => (false, [])
  | c :: rest => if c = '-' then (true, rest) else (false, c :: rest)

/-- Read the digits before the point: a leading zero stands alone. -/
def readWhole : Reader (List Char) := fun s =>
  match readDigits s with
  | none => none
  | some (ds, rest) => if ds.head? = some '0' ∧ ds.length ≠ 1 then none else some (ds, rest)

/-- Read a point and the digits after it, if there is a point. -/
def readFraction : Reader (Option (List Char)) := fun s =>
  match s with
  | [] => some (none, [])
  | c :: rest => if c = '.' then readDigits.map some rest else some (none, c :: rest)

/-- Read the exponent's digits and their sign. -/
def readSigned : Reader Int := fun s =>
  match s with
  | [] => none
  | c :: rest =>
    if c = '-' then readDigits.map (fun ds => -(ofDigits ds : Int)) rest
    else if c = '+' then readDigits.map (fun ds => (ofDigits ds : Int)) rest
    else readDigits.map (fun ds => (ofDigits ds : Int)) (c :: rest)

/-- Read an exponent part, if there is one. -/
def readExponent : Reader (Option Int) := fun s =>
  match s with
  | [] => some (none, [])
  | c :: rest =>
    if c = 'e' ∨ c = 'E' then readSigned.map some rest else some (none, c :: rest)

/-- The greatest magnitude of a whole number of either sign. -/
def magnitudeMax (negative : Bool) : Nat :=
  if negative then Nat.pow 2 63 else Nat.pow 2 64 - 1

/-- The number that the parts of a numeral stand for. -/
def number? (negative : Bool) (whole : List Char) (fraction : Option (List Char))
    (exponent : Option Int) : Option Number :=
  let n := ofDigits whole
  if fraction.isNone ∧ exponent.isNone ∧ n ≤ magnitudeMax negative ∧
      ¬(negative = true ∧ n = 0) then
    some (.int (if negative then -n else n))
  else
    (Literal.value? ⟨negative, whole, fraction.getD [], exponent.getD 0⟩).map .float

/-- Read a numeral. -/
def read : Reader Number := fun s =>
  let (negative, s) := readMinus s
  match readWhole s with
  | none => none
  | some (whole, s) =>
    match readFraction s with
    | none => none
    | some (fraction, s) =>
      match readExponent s with
      | none => none
      | some (exponent, s) => (number? negative whole fraction exponent).map fun n => (n, s)

/-- The written form of a number. -/
def write : Number → List Char
  | .int value => if value < 0 then '-' :: digits value.natAbs else digits value.natAbs
  | .float value => layout.write value

end Json.Numeral

end ChatIntake
