/-!
# Decimal digits

The digits of a natural number, most significant first and without leading
zeros, and the number a row of digits stands for. The second undoes the first.
-/

namespace ChatIntake.Decimal

/-- The character of a digit below ten. -/
def digitChar (d : Nat) : Char := Char.ofNat (0x30 + d)

/-- The number a digit character stands for. -/
def digitValue (c : Char) : Nat := c.toNat - 0x30

theorem digitValue_digitChar {d : Nat} (h : d < 10) : digitValue (digitChar d) = d := by
  have all : ∀ e ∈ List.range 10, digitValue (digitChar e) = e := by decide
  exact all d (List.mem_range.mpr h)

theorem isDigit_digitChar {d : Nat} (h : d < 10) : (digitChar d).isDigit = true := by
  have all : ∀ e ∈ List.range 10, (digitChar e).isDigit = true := by decide
  exact all d (List.mem_range.mpr h)

/-- The digits of a number; zero has one digit. -/
def digits (n : Nat) : List Char :=
  if n < 10 then [digitChar n] else digits (n / 10) ++ [digitChar (n % 10)]

/-- The number that a row of digits continues a number with. -/
def extend (n : Nat) (c : Char) : Nat := 10 * n + digitValue c

/-- The number that a row of digits stands for. -/
def ofDigits (cs : List Char) : Nat := cs.foldl extend 0

theorem ofDigits_concat (cs : List Char) (c : Char) :
    ofDigits (cs ++ [c]) = 10 * ofDigits cs + digitValue c := by
  simp [ofDigits, extend]

@[simp] theorem ofDigits_digits (n : Nat) : ofDigits (digits n) = n := by
  induction n using Nat.strongRecOn with
  | ind n ih =>
    rw [digits]
    split
    · next h => simp [ofDigits, extend, digitValue_digitChar h]
    · next h =>
      rw [ofDigits_concat, ih (n / 10) (by omega), digitValue_digitChar (Nat.mod_lt n (by omega))]
      omega

theorem isDigit_of_mem_digits (n : Nat) : ∀ c ∈ digits n, c.isDigit = true := by
  induction n using Nat.strongRecOn with
  | ind n ih =>
    rw [digits]
    split
    · next h => simpa using isDigit_digitChar h
    · next h =>
      intro c hc
      rcases List.mem_append.mp hc with hc | hc
      · exact ih (n / 10) (by omega) c hc
      · rw [List.mem_singleton.mp hc]
        exact isDigit_digitChar (Nat.mod_lt n (by omega))

theorem digits_ne_nil (n : Nat) : digits n ≠ [] := by
  rw [digits]
  split <;> simp

/-- Only zero is written with a leading zero. -/
theorem head?_digits_ne {n : Nat} (hn : n ≠ 0) : (digits n).head? ≠ some '0' := by
  induction n using Nat.strongRecOn with
  | ind n ih =>
    rw [digits]
    split
    · next h =>
      have all : ∀ e ∈ List.range 10, e ≠ 0 → digitChar e ≠ '0' := by decide
      simpa using all n (List.mem_range.mpr h) hn
    · next h =>
      have front := ih (n / 10) (by omega) (by omega)
      rw [List.head?_append]
      cases head : (digits (n / 10)).head? with
      | none => exact absurd (List.head?_eq_none_iff.mp head) (digits_ne_nil (n / 10))
      | some c => simpa [head] using front

/-- The text of a number. -/
def text (n : Nat) : String := String.ofList (digits n)

end ChatIntake.Decimal
