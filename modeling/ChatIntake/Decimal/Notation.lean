import ChatIntake.Decimal.Shortest

/-!
# Decimal notation

How digits and an exponent are laid out: positionally with a point for exponents
in a given range, otherwise with an exponent part that always has a sign.
-/

namespace ChatIntake.Decimal

/-- The range of exponents that are written positionally. -/
structure Layout where
  least : Int
  greatest : Int
deriving DecidableEq

/-- The digits before the point, the point, and the digits after it, at least one. -/
def pointed (whole fraction : List Char) : List Char :=
  whole ++ '.' :: (if fraction.isEmpty then ['0'] else fraction)

/-- Positional notation. -/
def positional (s : Scientific) : List Char :=
  if s.exponent < 0 then
    pointed ['0'] (List.replicate (s.exponent.natAbs - 1) '0' ++ s.digits)
  else
    let count := s.exponent.natAbs + 1
    pointed (s.digits.take count ++ List.replicate (count - s.digits.length) '0')
      (s.digits.drop count)

/-- One digit before the point, the point only if more digits follow, and the exponent. -/
def exponential (s : Scientific) : List Char :=
  let mantissa := match s.digits with
    | d :: e :: ds => d :: '.' :: e :: ds
    | ds => ds
  mantissa ++ 'e' :: (if s.exponent < 0 then '-' else '+') :: digits s.exponent.natAbs

/-- The notation of a finite number in a layout; zero is written with one digit after
the point. -/
def Layout.write (layout : Layout) (x : Binary64) : List Char :=
  let magnitude :=
    if x.rank = 0 then pointed ['0'] []
    else
      let s := shortest x.rank
      if layout.least ≤ s.exponent ∧ s.exponent ≤ layout.greatest then positional s
      else exponential s
  if x.negative then '-' :: magnitude else magnitude

end ChatIntake.Decimal
