import ChatIntake.Text.Reader

/-!
# Rows of values

A row is written with a comma between neighbours and a closing character at the end. It is
read back if each of its values is read back up to the comma or the close that follows it.
-/

namespace ChatIntake.Text.Reader

variable {α : Type}

/-- What follows the first value of a row. -/
def rowRest (close : Char) (write : α → List Char) (values : List α) : List Char :=
  values.flatMap (fun value => ',' :: write value) ++ [close]

/-- A row whose opening character is written already. -/
def row (close : Char) (write : α → List Char) : List α → List Char
  | [] => [close]
  | value :: values => write value ++ rowRest close write values

theorem rowRest_cons (close : Char) (write : α → List Char) (value : α) (values : List α) :
    rowRest close write (value :: values) = ',' :: (write value ++ rowRest close write values) := by
  simp [rowRest]

/-- The marks of a row are no spaces, and differ. -/
structure MarksRow (skip : List Char → List Char) (close : Char) : Prop where
  close_ne : close ≠ ','
  skip_comma : ∀ rest, skip (',' :: rest) = ',' :: rest
  skip_close : ∀ rest, skip (close :: rest) = close :: rest

/-- The comma and the close are among the marks that may follow a value. -/
theorem mem_of_mem_pair {c close : Char} {marks : List Char} (hcomma : ',' ∈ marks)
    (hclose : close ∈ marks) (hc : c ∈ [',', close]) : c ∈ marks := by
  rw [List.mem_cons, List.mem_singleton] at hc
  rcases hc with rfl | rfl
  · exact hcomma
  · exact hclose

/-- A value that may come first in a row or after a comma: it begins neither with a space
nor with the close. -/
structure BeginsInRow (skip : List Char → List Char) (close : Char) (write : α → List Char)
    (value : α) : Prop where
  skip_eq : ∀ rest, skip (write value ++ rest) = write value ++ rest
  exists_cons : ∃ c text, write value = c :: text ∧ c ≠ close

/-- A value of a row that is read back up to the mark after it. -/
structure StandsInRow (skip : List Char → List Char) (close : Char) (item : Reader α)
    (write : α → List Char) (value : α) : Prop where
  begins : BeginsInRow skip close write value
  read_eq : ∀ c ∈ [',', close], ∀ rest,
    item (write value ++ c :: rest) = some (value, c :: rest)

variable {skip : List Char → List Char} {trailing : Bool} {close : Char} {item : Reader α}
  {write : α → List Char} {value : α} {values : List α}

theorem rowRest_eq_cons_row (h : values ≠ []) :
    rowRest close write values = ',' :: row close write values := by
  cases values with
  | nil => exact absurd rfl h
  | cons value values => exact rowRest_cons close write value values

theorem BeginsInRow.skip_row (h : BeginsInRow skip close write value) (rest : List Char) :
    skip (row close write (value :: values) ++ rest) =
      row close write (value :: values) ++ rest := by
  rw [row, List.append_assoc, h.skip_eq]

theorem BeginsInRow.exists_row_eq_cons (h : BeginsInRow skip close write value) :
    ∃ c text, row close write (value :: values) = c :: text ∧ c ≠ close := by
  obtain ⟨c, text, hwrite, hc⟩ := h.exists_cons
  exact ⟨c, text ++ rowRest close write values, by rw [row, hwrite, List.cons_append], hc⟩

/-- A value is taken off a row, and the row goes on after the comma. -/
theorem elementsWithin_row_cons (hmarks : MarksRow skip close)
    (hvalue : StandsInRow skip close item write value) {next : α}
    (hnext : BeginsInRow skip close write next) (rest bound : List Char) (c : Char) :
    elementsWithin skip trailing close item (c :: bound)
        (row close write (value :: next :: values) ++ rest) =
      (elementsWithin skip trailing close item bound
        (row close write (next :: values) ++ rest)).map fun result =>
          (value :: result.1, result.2) := by
  have hrow : ∃ d text, row close write (next :: values) = d :: text ∧ d ≠ close :=
    hnext.exists_row_eq_cons
  obtain ⟨d, text, hrow, hd⟩ := hrow
  have hskip : skip (d :: text ++ rest) = d :: text ++ rest := hrow ▸ hnext.skip_row rest
  have hread := hvalue.read_eq ',' (by simp) (d :: text ++ rest)
  have hhead : (d :: text ++ rest).head? ≠ some close := by simpa using hd
  rw [row, rowRest_eq_cons_row (List.cons_ne_nil next values), hrow, List.append_assoc,
    List.cons_append]
  simp only [elementsWithin, hread, hmarks.skip_comma, if_neg hmarks.close_ne.symm, if_true, hskip,
    hhead, and_false, if_false]
  cases elementsWithin skip trailing close item bound (d :: text ++ rest) <;> rfl

/-- The last value of a row is taken off it, and the close with it. -/
theorem elementsWithin_row_singleton (hmarks : MarksRow skip close)
    (hvalue : StandsInRow skip close item write value) (rest bound : List Char) (c : Char) :
    elementsWithin skip trailing close item (c :: bound) (row close write [value] ++ rest) =
      some ([value], rest) := by
  have hread := hvalue.read_eq close (by simp) rest
  rw [row, rowRest, List.flatMap_nil, List.nil_append, List.append_assoc, List.singleton_append]
  simp only [elementsWithin, hread, hmarks.skip_close, if_true]

theorem elementsWithin_row (hmarks : MarksRow skip close)
    (hvalue : StandsInRow skip close item write value)
    (hvalues : ∀ v ∈ values, StandsInRow skip close item write v) (rest bound : List Char)
    (hbound : values.length < bound.length) :
    elementsWithin skip trailing close item bound (row close write (value :: values) ++ rest) =
      some (value :: values, rest) := by
  induction values generalizing value bound with
  | nil =>
      cases bound with
      | nil => simp at hbound
      | cons c bound => exact elementsWithin_row_singleton hmarks hvalue rest bound c
  | cons next values ih =>
      cases bound with
      | nil => simp at hbound
      | cons c bound =>
          obtain ⟨hnext, hlater⟩ := List.forall_mem_cons.mp hvalues
          have hrest := ih hnext hlater bound (by simpa using hbound)
          rw [elementsWithin_row_cons hmarks hvalue hnext.begins, hrest, Option.map_some]

theorem length_le_length_rowRest (values : List α) :
    values.length ≤ (rowRest close write values).length := by
  induction values with
  | nil => exact Nat.zero_le _
  | cons value values ih =>
      rw [rowRest_cons]
      simp only [List.length_cons, List.length_append]
      omega

/-- A row that is not empty is read from its first value on. -/
theorem listed_row_cons (h : BeginsInRow skip close write value) (rest : List Char) :
    listed skip trailing close item (row close write (value :: values) ++ rest) =
      elementsWithin skip trailing close item (row close write (value :: values) ++ rest)
        (row close write (value :: values) ++ rest) := by
  have hskip : skip (row close write (value :: values) ++ rest) =
      row close write (value :: values) ++ rest := h.skip_row rest
  have hrow : ∃ c text, row close write (value :: values) = c :: text ∧ c ≠ close :=
    h.exists_row_eq_cons
  obtain ⟨c, text, hrow, hc⟩ := hrow
  rw [hrow, List.cons_append] at hskip ⊢
  simp only [listed, hskip, if_neg hc, elements]

/-- A written row is read back, and what follows it is left. -/
theorem listed_row (hmarks : MarksRow skip close)
    (hvalues : ∀ v ∈ values, StandsInRow skip close item write v) (rest : List Char) :
    listed skip trailing close item (row close write values ++ rest) = some (values, rest) := by
  cases values with
  | nil => simp [listed, row, hmarks.skip_close]
  | cons value values =>
      obtain ⟨hvalue, hlater⟩ := List.forall_mem_cons.mp hvalues
      have hlength : values.length ≤ (rowRest close write values).length :=
        length_le_length_rowRest values
      have hbound : values.length < (row close write (value :: values) ++ rest).length := by
        obtain ⟨c, text, hwrite, _⟩ := hvalue.begins.exists_cons
        simp only [row, hwrite, List.length_append, List.length_cons]
        omega
      rw [listed_row_cons hvalue.begins]
      exact elementsWithin_row hmarks hvalue hlater rest _ hbound

end ChatIntake.Text.Reader
