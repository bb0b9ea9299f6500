/-!
# Finite 64-bit binary floating-point numbers

A finite number is a sign and a rank: the place of its magnitude when the finite
magnitudes are counted upward from zero. Every magnitude is a whole number of
units of `2 ^ (-1074)`, so values are compared and rounded in `Nat`. Powers are
written with `Nat.pow`, which is the same operation whatever else is imported.
-/

namespace ChatIntake.Decimal

/-- The number of magnitudes that share one exponent. -/
def binade : Nat := Nat.pow 2 52

/-- The number of finite magnitudes. -/
def rankBound : Nat := 2047 * binade

/-- A finite 64-bit floating-point number; zero has both signs. -/
structure Binary64 where
  negative : Bool
  rank : Nat
  rank_lt : rank < rankBound
deriving DecidableEq

namespace Binary64

/-- The magnitude of a rank in units of `2 ^ (-1074)`. -/
def units (rank : Nat) : Nat :=
  if rank < binade then rank
  else (binade + rank % binade) * Nat.pow 2 (rank / binade - 1)

/-- The quotient rounded to the nearest whole number, a half to the even one. -/
def roundQuotient (num den : Nat) : Nat :=
  let whole := num / den
  let left := 2 * (num % den)
  if left < den ∨ (left = den ∧ whole % 2 = 0) then whole else whole + 1

/-- The rank nearest to a quotient, of two the even one. The rank is not bounded:
a magnitude too large to be finite gets a rank of at least `rankBound`. -/
def nearest (num den : Nat) : Nat :=
  let scaled := num * Nat.pow 2 1074
  let whole := scaled / den
  let shift := if whole < 2 * binade then 0 else whole.log2 - 52
  shift * binade + roundQuotient scaled (den * Nat.pow 2 shift)

/-- The number of the given sign and rank, if it is finite. -/
def ofRank? (negative : Bool) (rank : Nat) : Option Binary64 :=
  if h : rank < rankBound then some ⟨negative, rank, h⟩ else none

/-- The rank of the product of the magnitudes of two ranks. -/
def product (a b : Nat) : Nat := nearest (units a * units b) (Nat.pow 2 2148)

/-- The rank of the quotient of the magnitudes of two ranks. -/
def quotient (a b : Nat) : Nat := nearest (units a) (units b)

end Binary64

end ChatIntake.Decimal
