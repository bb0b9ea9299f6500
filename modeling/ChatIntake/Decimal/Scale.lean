import ChatIntake.Decimal.Binary64
import ChatIntake.Decimal.Digits

/-!
# Decimal literals as floating-point numbers

A literal is read as a significand of 64 bits and a power of ten, each rounded
once, which are then multiplied or divided. The result is thus not always the
nearest number to the literal, but it is fixed by the literal's digits.
-/

namespace ChatIntake.Decimal

/-- The parts of a decimal literal: its sign, the digits before and after the
point, and the power of ten it is multiplied by. -/
structure Literal where
  negative : Bool
  whole : List Char
  fraction : List Char
  exponent : Int
deriving DecidableEq

/-- The greatest significand. -/
def significandMax : Nat := Nat.pow 2 64 - 1

/-- Take digits into a significand while it fits, and count the digits taken. -/
def takeDigits (n : Nat) : List Char → Nat × Nat
  | [] => (n, 0)
  | c :: cs =>
    if extend n c ≤ significandMax then
      let (m, taken) := takeDigits (extend n c) cs
      (m, taken + 1)
    else (n, 0)

/-- The rank of a power of ten. -/
def powerOfTen (n : Nat) : Nat := Binary64.nearest (Nat.pow 10 n) 1

/-- The greatest power of ten that is finite. -/
def powerMax : Nat := 308

/-- Divide by a power of ten, in steps of the greatest finite one. -/
def scaleDown (rank n : Nat) : Nat :=
  if n ≤ powerMax then Binary64.quotient rank (powerOfTen n)
  else if rank = 0 then 0
  else scaleDown (Binary64.quotient rank (powerOfTen powerMax)) (n - powerMax)
termination_by n
decreasing_by
  have : powerMax = 308 := rfl
  omega

/-- Multiply by a power of ten; a product beyond the finite numbers is refused. -/
def scaleUp (rank n : Nat) : Option Nat :=
  if n ≤ powerMax then some (Binary64.product rank (powerOfTen n))
  else if rank = 0 then some 0
  else none

/-- The floating-point number that a literal stands for, if it is finite. -/
def Literal.value? (literal : Literal) : Option Binary64 :=
  let (front, takenFront) := takeDigits 0 literal.whole
  let (significand, takenBack) := takeDigits front literal.fraction
  let rank := Binary64.nearest significand 1
  let exponent := literal.exponent + (literal.whole.length - takenFront : Nat) - takenBack
  let scaled := if exponent < 0 then some (scaleDown rank exponent.natAbs)
    else scaleUp rank exponent.natAbs
  scaled.bind (Binary64.ofRank? literal.negative)

end ChatIntake.Decimal
