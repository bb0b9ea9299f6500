import ChatIntake.Decimal.Binary64
import ChatIntake.Decimal.Digits

/-!
# Shortest decimal digits

Every number is read back from any decimal that is nearer to it than to its
neighbours. The digits chosen lie on the coarsest decimal grid that has such a
point; of two points the nearer is taken, and of two equally near the even one.
-/

namespace ChatIntake.Decimal

/-- The grids have the steps `10 ^ (i - gridOffset)`. -/
def gridOffset : Nat := 324

/-- Whether the point `point`, in halves of units divided by `10 ^ gridOffset`, is
read back as the given rank: it lies between the midpoints to the neighbours, and
on a midpoint only if the rank is even. -/
def readsBack (rank point : Nat) : Bool :=
  let least := (Binary64.units (rank - 1) + Binary64.units rank) * Nat.pow 10 gridOffset
  let greatest := (Binary64.units rank + Binary64.units (rank + 1)) * Nat.pow 10 gridOffset
  if rank % 2 = 0 then least ≤ point && point ≤ greatest else least < point && point < greatest

/-- The multiple of a grid's step that is chosen for a rank, if one reads back. -/
def gridPoint? (rank i : Nat) : Option Nat :=
  let step := Nat.pow 10 i * Nat.pow 2 1075
  let value := 2 * Binary64.units rank * Nat.pow 10 gridOffset
  let below := value / step
  let left := 2 * (value % step)
  match readsBack rank (below * step), readsBack rank ((below + 1) * step) with
  | true, true => some (if left < step ∨ (left = step ∧ below % 2 = 0) then below else below + 1)
  | true, false => some below
  | false, true => some (below + 1)
  | false, false => none

/-- The chosen multiple on the coarsest of the first grids that has one, with its grid. -/
def coarsest (rank : Nat) : Nat → Nat × Nat
  | 0 => ((gridPoint? rank 0).getD 0, 0)
  | i + 1 =>
    match gridPoint? rank (i + 1) with
    | some multiple => (multiple, i + 1)
    | none => coarsest rank i

/-- Digits `d₀d₁d₂…` and the exponent `e` of the decimal `d₀.d₁d₂… · 10 ^ e`. -/
structure Scientific where
  digits : List Char
  exponent : Int
deriving DecidableEq

/-- The shortest decimal of a magnitude other than zero. -/
def shortest (rank : Nat) : Scientific :=
  let (multiple, i) := coarsest rank (gridOffset + 309)
  let ds := digits multiple
  ⟨ds, (i : Int) - gridOffset + ds.length - 1⟩

end ChatIntake.Decimal
