/-!
# Readers

A reader takes a value off the front of a text and returns it with the rest. The
repeating readers take no more steps than the text has characters, so every reader
built from them ends on every text.
-/

namespace ChatIntake.Text

/-- A reader of a value at the front of a text. -/
abbrev Reader (α : Type) := List Char → Option (α × List Char)

namespace Reader

variable {α β : Type}

/-- Apply a function to the value read. -/
def map (f : α → β) (read : Reader α) : Reader β := fun s =>
  (read s).map fun result => (f result.1, result.2)

/-- Read exactly the given character. -/
def char (c : Char) : Reader Unit
  | [] => none
  | d :: rest => if d = c then some ((), rest) else none

@[simp] theorem char_cons (c : Char) (rest : List Char) : char c (c :: rest) = some ((), rest) := by
  simp [char]

/-- Read exactly the given characters. -/
def word : List Char → Reader Unit
  | [], s => some ((), s)
  | c :: cs, s =>
    match s with
    | [] => none
    | d :: rest => if d = c then word cs rest else none

@[simp] theorem word_append (cs rest : List Char) : word cs (cs ++ rest) = some ((), rest) := by
  induction cs with
  | nil => simp [word]
  | cons c cs ih => simp [word, ih]

/-- Read values until the closing reader accepts, in no more steps than the bound has
characters. -/
def untilClosedWithin (close : Reader β) (step : Reader α) :
    (bound : List Char) → Reader (List α × β)
  | [], _ => none
  | _ :: bound, s =>
    match close s with
    | some (b, rest) => some (([], b), rest)
    | none =>
      match step s with
      | none => none
      | some (a, rest) =>
        match untilClosedWithin close step bound rest with
        | none => none
        | some ((as, b), rest) => some ((a :: as, b), rest)

/-- Read values until the closing reader accepts; its value comes last. Every value and
the close take a character at least, so the text itself bounds the steps. -/
def untilClosed (close : Reader β) (step : Reader α) : Reader (List α × β) := fun s =>
  untilClosedWithin close step s s

theorem untilClosedWithin_flatMap {close : Reader β} {step : Reader α} {write : α → List Char}
    {last rest : List Char} {b : β} (values : List α)
    (step_write : ∀ a ∈ values, ∀ r, step (write a ++ r) = some (a, r))
    (close_write : ∀ a ∈ values, ∀ r, close (write a ++ r) = none)
    (close_last : close last = some (b, rest)) (bound : List Char)
    (enough : values.length < bound.length) :
    untilClosedWithin close step bound (values.flatMap write ++ last) =
      some ((values, b), rest) := by
  induction values generalizing bound with
  | nil =>
    cases bound with
    | nil => simp at enough
    | cons _ bound => simp [untilClosedWithin, close_last]
  | cons a as ih =>
    cases bound with
    | nil => simp at enough
    | cons _ bound =>
      have tail := ih (fun x hx => step_write x (by simp [hx]))
        (fun x hx => close_write x (by simp [hx])) bound (by simpa using enough)
      simp [untilClosedWithin, close_write, step_write, tail]

/-- If each value is read off its written form, and no written form closes, then
the written values in a row are read back up to the close. -/
theorem untilClosed_flatMap {close : Reader β} {step : Reader α} {write : α → List Char}
    {last rest : List Char} {b : β} (values : List α)
    (step_write : ∀ a ∈ values, ∀ r, step (write a ++ r) = some (a, r))
    (close_write : ∀ a ∈ values, ∀ r, close (write a ++ r) = none)
    (write_ne : ∀ a ∈ values, write a ≠ []) (last_ne : last ≠ [])
    (close_last : close last = some (b, rest)) :
    untilClosed close step (values.flatMap write ++ last) = some ((values, b), rest) := by
  apply untilClosedWithin_flatMap values step_write close_write close_last
  have room : values.length ≤ (values.flatMap write).length := by
    clear step_write close_write
    induction values with
    | nil => simp
    | cons a as ih =>
      have := List.length_pos_iff.mpr (write_ne a (by simp))
      have := ih fun x hx => write_ne x (by simp [hx])
      simp only [List.length_cons, List.flatMap_cons, List.length_append]
      omega
  have := List.length_pos_iff.mpr last_ne
  simp only [List.length_append]
  omega

/-- Read one value, and further values after commas, up to the closing character, in no
more steps than the bound has characters. -/
def elementsWithin (skip : List Char → List Char) (trailing : Bool) (close : Char)
    (item : Reader α) : (bound : List Char) → Reader (List α)
  | [], _ => none
  | _ :: bound, s =>
    match item s with
    | none => none
    | some (a, rest) =>
      match skip rest with
      | [] => none
      | c :: rest =>
        if c = close then some ([a], rest)
        else if c = ',' then
          let next := skip rest
          if trailing = true ∧ next.head? = some close then some ([a], next.tail)
          else
            match elementsWithin skip trailing close item bound next with
            | none => none
            | some (as, rest) => some (a :: as, rest)
        else none

/-- Read one value, and further values after commas, up to the closing character.
Spaces between are skipped; a comma before the close is accepted if `trailing`. -/
def elements (skip : List Char → List Char) (trailing : Bool) (close : Char) (item : Reader α) :
    Reader (List α) := fun s =>
  elementsWithin skip trailing close item s s

/-- Read a comma-separated list, possibly empty, whose opening character was taken. -/
def listed (skip : List Char → List Char) (trailing : Bool) (close : Char) (item : Reader α) :
    Reader (List α) := fun s =>
  match skip s with
  | [] => none
  | c :: rest =>
    if c = close then some ([], rest) else elements skip trailing close item (c :: rest)

end Reader

end ChatIntake.Text
