import ChatIntake.Json.Numeral

/-!
# Whole numbers in text

A whole number of 64 bits, with a sign or without, is read back from its written form.
What follows the numeral must not go on with a digit, a point or an exponent.
-/

namespace ChatIntake.Json.Numeral

open ChatIntake.Decimal ChatIntake.Text

/-- The least whole number of 64 bits with a sign, which is minus two to the sixty-third. -/
def wholeMin : Int := -9223372036854775808

/-- The greatest whole number of 64 bits without a sign. -/
def wholeMax : Int := 18446744073709551615

/-- A text that does not continue a numeral before it. -/
def Stops (rest : List Char) : Prop :=
  ∀ c, rest.head? = some c → c.isDigit = false ∧ c ∉ ['.', 'e', 'E']

variable {rest : List Char}

theorem takeWhile_isDigit_of_stops (h : Stops rest) : rest.takeWhile Char.isDigit = [] := by
  cases rest with
  | nil => rfl
  | cons c rest => simp [(h c rfl).1]

theorem readDigits_digits (n : Nat) (h : Stops rest) :
    readDigits (digits n ++ rest) = some (digits n, rest) := by
  have hdigits : ∀ c ∈ digits n, c.isDigit = true := isDigit_of_mem_digits n
  have htake : (digits n ++ rest).takeWhile Char.isDigit = digits n := by
    rw [List.takeWhile_append_of_pos hdigits, takeWhile_isDigit_of_stops h, List.append_nil]
  have hdrop : (digits n ++ rest).dropWhile Char.isDigit = rest := by
    have hall := List.takeWhile_append_dropWhile (p := Char.isDigit) (l := digits n ++ rest)
    rw [htake] at hall
    exact List.append_cancel_left hall
  simp [readDigits, htake, hdrop, digits_ne_nil]

theorem readWhole_digits (n : Nat) (h : Stops rest) :
    readWhole (digits n ++ rest) = some (digits n, rest) := by
  have hlead : ¬((digits n).head? = some '0' ∧ (digits n).length ≠ 1) := by
    rintro ⟨hzero, hlength⟩
    by_cases hn : n = 0
    · subst hn
      exact hlength (by rw [digits]; rfl)
    · exact head?_digits_ne hn hzero
  simp only [readWhole, readDigits_digits n h, if_neg hlead]

theorem readFraction_of_stops (h : Stops rest) : readFraction rest = some (none, rest) := by
  cases rest with
  | nil => rfl
  | cons c rest =>
      have hc := (h c rfl).2
      simp only [List.mem_cons, List.not_mem_nil, or_false, not_or] at hc
      simp [readFraction, hc]

theorem readExponent_of_stops (h : Stops rest) : readExponent rest = some (none, rest) := by
  cases rest with
  | nil => rfl
  | cons c rest =>
      have hc := (h c rfl).2
      simp only [List.mem_cons, List.not_mem_nil, or_false, not_or] at hc
      simp [readExponent, hc]

theorem readMinus_digits (n : Nat) :
    readMinus (digits n ++ rest) = (false, digits n ++ rest) := by
  cases hdigits : digits n with
  | nil => exact absurd hdigits (digits_ne_nil n)
  | cons c cs =>
      have hc : c.isDigit = true := isDigit_of_mem_digits n c (by simp [hdigits])
      have hminus : c ≠ '-' := by
        rintro rfl
        exact absurd hc (by decide)
      simp [readMinus, hminus]

/-- A numeral without point and exponent stands for its number, with the sign before it. -/
theorem read_of_readMinus {s : List Char} {negative : Bool} {n : Nat} {value : Int}
    (hminus : readMinus s = (negative, digits n ++ rest)) (h : Stops rest)
    (hvalue : number? negative (digits n) none none = some (.int value)) :
    read s = some (.int value, rest) := by
  simp only [read, hminus, readWhole_digits n h, readFraction_of_stops h,
    readExponent_of_stops h, hvalue, Option.map_some]

/-- A whole number of 64 bits is read back from its written form. -/
theorem read_write_int {value : Int} (hleast : wholeMin ≤ value) (hgreatest : value ≤ wholeMax)
    (h : Stops rest) : read (write (.int value) ++ rest) = some (.int value, rest) := by
  have hmin : wholeMin = -9223372036854775808 := rfl
  have hmax : wholeMax = 18446744073709551615 := rfl
  by_cases hneg : value < 0
  · have hminus : readMinus (write (.int value) ++ rest) =
        (true, digits value.natAbs ++ rest) := by
      simp only [write, if_pos hneg, List.cons_append, readMinus, if_true]
    apply read_of_readMinus hminus h
    have hfits : value.natAbs ≤ magnitudeMax true := by
      have hbound : magnitudeMax true = 9223372036854775808 := by decide
      omega
    have hback : -(value.natAbs : Int) = value := by omega
    have hne : ¬ (true = true ∧ value.natAbs = 0) := by omega
    dsimp only [number?]
    rw [ofDigits_digits, if_pos ⟨rfl, rfl, hfits, hne⟩, if_pos rfl, hback]
  · have hminus : readMinus (write (.int value) ++ rest) =
        (false, digits value.natAbs ++ rest) := by
      simp only [write, if_neg hneg, readMinus_digits]
    apply read_of_readMinus hminus h
    have hfits : value.natAbs ≤ magnitudeMax false := by
      have hbound : magnitudeMax false = 18446744073709551615 := by decide
      omega
    have hback : (value.natAbs : Int) = value := by omega
    have hne : ¬ (false = true ∧ value.natAbs = 0) := fun hzero => Bool.false_ne_true hzero.1
    dsimp only [number?]
    rw [ofDigits_digits, if_pos ⟨rfl, rfl, hfits, hne⟩, if_neg Bool.false_ne_true, hback]

end ChatIntake.Json.Numeral
