import ChatIntake.Text.Reader

/-!
# Hexadecimal digits

Single digits and readers of a fixed number of them, and the characters that
such numbers stand for: every code point except the surrogates.
-/

namespace ChatIntake.Text

/-- The lower-case hexadecimal digit of a number below sixteen. -/
def hexChar (d : Nat) : Char :=
  Char.ofNat (if d < 10 then 0x30 + d else 0x57 + d)

/-- The number a hexadecimal digit of either case stands for. -/
def hexValue? (c : Char) : Option Nat :=
  let n := c.toNat
  if 0x30 ≤ n ∧ n ≤ 0x39 then some (n - 0x30)
  else if 0x61 ≤ n ∧ n ≤ 0x66 then some (n - 0x57)
  else if 0x41 ≤ n ∧ n ≤ 0x46 then some (n - 0x37)
  else none

theorem hexValue?_hexChar {d : Nat} (h : d < 16) : hexValue? (hexChar d) = some d := by
  have all : ∀ e ∈ List.range 16, hexValue? (hexChar e) = some e := by decide
  exact all d (List.mem_range.mpr h)

/-- Read exactly `count` hexadecimal digits that continue the number `n`. -/
def readHex : (count : Nat) → (n : Nat) → Reader Nat
  | 0, n, s => some (n, s)
  | _ + 1, _, [] => none
  | count + 1, n, c :: rest =>
    match hexValue? c with
    | none => none
    | some d => readHex count (16 * n + d) rest

/-- The character of a code point; surrogates and numbers past the last code point
have none. -/
def scalar? (n : Nat) : Option Char :=
  if n.isValidChar then some (Char.ofNat n) else none

theorem scalar?_toNat (c : Char) : scalar? c.toNat = some c := by
  have valid : c.toNat.isValidChar := c.valid
  simp [scalar?, valid, Char.ofNat_toNat]

end ChatIntake.Text
