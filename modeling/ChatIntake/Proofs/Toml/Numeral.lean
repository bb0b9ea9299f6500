import ChatIntake.Toml.Statement
import Mathlib.Data.List.TakeWhile

/-!
# Numbers as plain words

A number in plain notation is a whole number, with the digits of a fraction after a point or
without, or one of the words for no finite number, and may have a sign. Such a word is no
text, no date and no time of day, and it is taken for a number up to what follows it.
-/

namespace ChatIntake.Toml

open ChatIntake.Text

section Moments

variable {s : List Char}

/-- Digits that are read are digits that a text begins with. -/
theorem Moment.dropWhile_of_readNumber {count n m : Nat} {rest : List Char}
    (h : readNumber count n s = some (m, rest)) :
    rest.dropWhile Char.isDigit = s.dropWhile Char.isDigit := by
  induction count generalizing n s with
  | zero =>
      cases h
      rfl
  | succ count ih =>
      cases s with
      | nil => cases h
      | cons c s =>
          simp only [readNumber] at h
          split at h
          · next hc => rw [ih h, List.dropWhile_cons_of_pos hc]
          · cases h

/-- A pair is read where its separator stands after all digits. -/
theorem Moment.readPair_eq_none {separator : Char} (hseparator : separator.isDigit = false)
    (h : (s.dropWhile Char.isDigit).head? ≠ some separator) : readPair separator s = none := by
  cases s with
  | nil => rfl
  | cons c s =>
      have hc : c ≠ separator := by
        rintro rfl
        rw [List.dropWhile_cons_of_neg (by simp [hseparator])] at h
        exact h rfl
      simp only [readPair, if_neg hc]

/-- A text that begins with no digit is no moment. -/
theorem Moment.read_eq_none_of_not_digit {c : Char} (hc : c.isDigit = false) (s : List Char) :
    Moment.read (c :: s) = none := by
  have hnumber : ∀ count, readNumber (count + 1) 0 (c :: s) = none := by
    intro count
    simp only [readNumber, hc, Bool.false_eq_true, if_false]
  simp [Moment.read, readDate, readTime, hnumber, Reader.map]

/-- Nor is a text whose first digits are followed neither by a hyphen nor by a colon. -/
theorem Moment.read_eq_none (hhyphen : (s.dropWhile Char.isDigit).head? ≠ some '-')
    (hcolon : (s.dropWhile Char.isDigit).head? ≠ some ':') : Moment.read s = none := by
  have hdate : readDate s = none := by
    cases hyear : readNumber 4 0 s with
    | none => simp [readDate, hyear]
    | some year =>
        have hpair : readPair '-' year.2 = none :=
          readPair_eq_none (by decide) (dropWhile_of_readNumber hyear ▸ hhyphen)
        simp [readDate, hyear, hpair]
  have htime : readTime s = none := by
    cases hhour : readNumber 2 0 s with
    | none => simp [readTime, hhour]
    | some hour =>
        have hpair : readPair ':' hour.2 = none :=
          readPair_eq_none (by decide) (dropWhile_of_readNumber hhour ▸ hcolon)
        simp [readTime, hhour, hpair]
  simp only [Moment.read, hdate, Reader.map, htime, Option.map_none]

end Moments

namespace Numeral

/-- The digits of a whole number, without a zero in front of others. -/
structure WholeDigits (digits : List Char) : Prop where
  isDigit : ∀ c ∈ digits, c.isDigit = true
  ne_nil : digits ≠ []
  eq_zero : digits.head? = some '0' → digits = ['0']

/-- A number without its sign. -/
inductive Magnitude : List Char → Prop
  | whole {digits : List Char} (hdigits : WholeDigits digits) : Magnitude digits
  | fraction {digits places : List Char} (hdigits : WholeDigits digits)
      (hplaces : ∀ c ∈ places, c.isDigit = true) (hne : places ≠ []) :
      Magnitude (digits ++ '.' :: places)
  | infinite : Magnitude ['i', 'n', 'f']
  | undefined : Magnitude ['n', 'a', 'n']

/-- A number in plain notation, with a sign or without. -/
inductive Plain : List Char → Prop
  | unsigned {word : List Char} (h : Magnitude word) : Plain word
  | signed {sign : Char} {word : List Char} (hsign : sign = '+' ∨ sign = '-')
      (h : Magnitude word) : Plain (sign :: word)

section Characters

/-- The characters that plain numbers are made of. -/
def isPlainChar (c : Char) : Bool :=
  c.isDigit || c = '.' || c = '+' || c = '-' || c = 'i' || c = 'n' || c = 'f' || c = 'a'

variable {c : Char} {word : List Char}

theorem ne_of_isPlainChar (hc : isPlainChar c = true) (d : Char) (hd : isPlainChar d = false) :
    c ≠ d := by
  rintro rfl
  rw [hc] at hd
  cases hd

theorem isPlainChar_of_isDigit (h : c.isDigit = true) : isPlainChar c = true := by
  simp [isPlainChar, h]

theorem Magnitude.isPlainChar_of_mem (h : Magnitude word) : ∀ c ∈ word, isPlainChar c = true := by
  cases h with
  | whole hdigits => exact fun c hc => isPlainChar_of_isDigit (hdigits.isDigit c hc)
  | fraction hdigits hplaces =>
      intro c hc
      rcases List.mem_append.mp hc with hc | hc
      · exact isPlainChar_of_isDigit (hdigits.isDigit c hc)
      · rcases List.mem_cons.mp hc with rfl | hc
        · decide
        · exact isPlainChar_of_isDigit (hplaces c hc)
  | infinite | undefined =>
      simp only [List.forall_mem_cons, List.not_mem_nil, false_implies, implies_true, and_true]
      decide

theorem Plain.isPlainChar_of_mem (h : Plain word) : ∀ c ∈ word, isPlainChar c = true := by
  cases h with
  | unsigned h => exact h.isPlainChar_of_mem
  | signed hsign h =>
      refine List.forall_mem_cons.mpr ⟨?_, h.isPlainChar_of_mem⟩
      rcases hsign with rfl | rfl <;> decide

end Characters

section Words

variable {word : List Char}

theorem WholeDigits.exists_cons (h : WholeDigits word) :
    ∃ c text, word = c :: text ∧ c.isDigit = true := by
  cases word with
  | nil => exact absurd rfl h.ne_nil
  | cons c text => exact ⟨c, text, rfl, h.isDigit c List.mem_cons_self⟩

theorem isSign_of_isDigit {c : Char} (h : c.isDigit = true) : isSign c = false := by
  have hplus : c ≠ '+' := by
    rintro rfl
    cases h
  have hminus : c ≠ '-' := by
    rintro rfl
    cases h
  simp [isSign, hplus, hminus]

/-- A magnitude begins with no sign. -/
theorem Magnitude.exists_cons (h : Magnitude word) :
    ∃ c text, word = c :: text ∧ isSign c = false := by
  cases h with
  | whole hdigits =>
      obtain ⟨c, text, rfl, hc⟩ := hdigits.exists_cons
      exact ⟨c, text, rfl, isSign_of_isDigit hc⟩
  | fraction hdigits =>
      obtain ⟨c, text, rfl, hc⟩ := hdigits.exists_cons
      exact ⟨c, _, rfl, isSign_of_isDigit hc⟩
  | infinite => exact ⟨'i', _, rfl, by decide⟩
  | undefined => exact ⟨'n', _, rfl, by decide⟩

theorem Plain.exists_cons (h : Plain word) :
    ∃ c text, word = c :: text ∧ isPlainChar c = true := by
  have hplain := h.isPlainChar_of_mem
  cases h with
  | signed => exact ⟨_, _, rfl, hplain _ List.mem_cons_self⟩
  | unsigned h =>
      obtain ⟨c, text, rfl, _⟩ := h.exists_cons
      exact ⟨c, text, rfl, hplain c List.mem_cons_self⟩

theorem Magnitude.unsigned_eq (h : Magnitude word) : Numeral.unsigned word = word := by
  obtain ⟨c, text, rfl, hc⟩ := h.exists_cons
  simp only [Numeral.unsigned, hc, Bool.false_eq_true, if_false]

theorem Plain.magnitude (h : Plain word) : Magnitude (Numeral.unsigned word) := by
  cases h with
  | unsigned h => rwa [h.unsigned_eq]
  | signed hsign h => rcases hsign with rfl | rfl <;> exact h

theorem WholeDigits.length_eq_one_or (h : WholeDigits word) :
    word.length = 1 ∨ word.head? ≠ some '0' := by
  by_cases hzero : word.head? = some '0'
  · exact .inl (congrArg List.length (h.eq_zero hzero))
  · exact .inr hzero

theorem isWhole_of_wholeDigits (h : WholeDigits word) : isWhole word = true := by
  have hall : word.all Char.isDigit = true := List.all_eq_true.mpr h.isDigit
  have hzero : word.length = 1 ∨ word.head? ≠ some '0' := h.length_eq_one_or
  simpa [isWhole, hall, h.ne_nil] using hzero

theorem digitCount_of_all (h : ∀ c ∈ word, c.isDigit = true) : digitCount word = word.length := by
  rw [digitCount, List.filter_eq_self.mpr h]

theorem isGroupChar_of_isDigit {c : Char} (h : c.isDigit = true) : isGroupChar c = true := by
  simp [isGroupChar, h]

theorem isDecimal_of_fraction {places : List Char} (h : WholeDigits word)
    (hplaces : ∀ c ∈ places, c.isDigit = true) (hne : places ≠ []) :
    isDecimal (word ++ '.' :: places) = true := by
  have hgroup : ∀ c ∈ word, isGroupChar c = true :=
    fun c hc => isGroupChar_of_isDigit (h.isDigit c hc)
  have hmantissa : (word ++ '.' :: places).takeWhile isGroupChar = word := by
    rw [List.takeWhile_append_of_pos hgroup, List.takeWhile_cons_of_neg (by decide),
      List.append_nil]
  have hfraction : (word ++ '.' :: places).dropWhile isGroupChar = '.' :: places := by
    rw [List.dropWhile_append_of_pos hgroup, List.dropWhile_cons_of_neg (by decide)]
  have hgroups : ∀ c ∈ places, isGroupChar c = true :=
    fun c hc => isGroupChar_of_isDigit (hplaces c hc)
  have hlength : places.length ≠ 0 := by simpa using hne
  have hplacesFraction : isFraction ('.' :: places) = true := by
    simp [isFraction, List.takeWhile_eq_self_iff.mpr hgroups, List.dropWhile_eq_nil_iff.mpr hgroups,
      digitCount_of_all hplaces, hlength, isExponent]
  have hzero : word.length = 1 ∨ word.head? ≠ some '0' := h.length_eq_one_or
  simp only [isDecimal, hmantissa, hfraction, hplacesFraction, digitCount_of_all h.isDigit]
  simpa [h.ne_nil] using hzero

/-- Without an underscore there is none out of its place. -/
theorem separates_of_notMem (isDigit : Char → Bool) (previous : Char) (h : '_' ∉ word) :
    separates isDigit previous word = true := by
  induction word generalizing previous with
  | nil => rfl
  | cons c word ih =>
      rw [List.mem_cons, not_or] at h
      simp [separates, Ne.symm h.1, ih c h.2]

/-- A number in plain notation is taken for a number. -/
theorem isNumeral_of_plain (h : Plain word) : isNumeral word = true := by
  have hseparated : isSeparated Char.isDigit word = true := by
    apply separates_of_notMem
    intro hmem
    exact ne_of_isPlainChar (h.isPlainChar_of_mem _ hmem) '_' (by decide) rfl
  have hmagnitude := h.magnitude
  simp only [isNumeral, hseparated, Bool.and_true, Bool.or_eq_true, beq_iff_eq]
  generalize Numeral.unsigned word = body at hmagnitude ⊢
  cases hmagnitude with
  | whole hdigits => simp [isWhole_of_wholeDigits hdigits]
  | fraction hdigits hplaces hne => simp [isDecimal_of_fraction hdigits hplaces hne]
  | infinite => simp
  | undefined => simp

end Words

end Numeral

namespace Statement

/-- The characters that may follow a value. -/
def marks : List Char := [',', ']', '\x7d', '\n']

variable {word : List Char} {mark : Char}

theorem isWordChar_of_isPlainChar {c : Char} (h : Numeral.isPlainChar c = true) :
    isWordChar c = true := by
  have hne := Numeral.ne_of_isPlainChar h
  simp [isWordChar, endsWord, isSpacing, hne ' ' (by decide), hne '\t' (by decide),
    hne '\n' (by decide), hne '\r' (by decide), hne '#' (by decide), hne '=' (by decide),
    hne ',' (by decide), hne '[' (by decide), hne ']' (by decide), hne '\x7b' (by decide),
    hne '\x7d' (by decide)]

/-- A word goes up to the mark after it. -/
theorem splitWord_word (hword : ∀ c ∈ word, isWordChar c = true) (hmark : mark ∈ marks)
    (rest : List Char) : splitWord (word ++ mark :: rest) = (word, mark :: rest) := by
  induction word with
  | nil =>
      have hends : ∀ c ∈ marks, isWordChar c = false ∧ c ≠ '\t' := by
        simp only [marks, List.forall_mem_cons, List.not_mem_nil, false_implies, implies_true,
          and_true]
        decide
      simp [splitWord, hends mark hmark]
  | cons c word ih =>
      obtain ⟨hc, hrest⟩ := List.forall_mem_cons.mp hword
      simp only [List.cons_append, splitWord, hc, Bool.true_or, if_true, ih hrest]

/-- A word that begins neither with a mark of a text nor like a moment is taken for what it
stands for. -/
theorem readScalar_word {c : Char} (hquote : c ≠ '"') (hapostrophe : c ≠ '\x27')
    (hword : ∀ d ∈ c :: word, isWordChar d = true) (hmark : mark ∈ marks) (rest : List Char)
    (hmoment : Moment.read (c :: word ++ mark :: rest) = none) :
    readScalar (c :: word ++ mark :: rest) =
      (ofWord? (c :: word)).map fun v => (v, mark :: rest) := by
  have hquoted : Quoted.read (c :: word ++ mark :: rest) = none := by
    simp [Quoted.read, Quoted.readKey, Reader.word, hquote, hapostrophe]
  simp only [readScalar, hquoted, hmoment, splitWord_word hword hmark]

/-- No number in plain notation is read as a moment. -/
theorem read_plain_eq_none (h : Numeral.Plain word) (hmark : mark ∈ marks) (rest : List Char) :
    Moment.read (word ++ mark :: rest) = none := by
  have hends : ∀ c ∈ marks, c.isDigit = false ∧ c ≠ '-' ∧ c ≠ ':' := by
    simp only [marks, List.forall_mem_cons, List.not_mem_nil, false_implies, implies_true, and_true]
    decide
  obtain ⟨hdigit, hhyphen, hcolon⟩ := hends mark hmark
  cases h with
  | signed hsign =>
      rcases hsign with rfl | rfl <;> exact Moment.read_eq_none_of_not_digit (by decide) _
  | unsigned h =>
      cases h with
      | whole hdigits =>
          have hdrop : (word ++ mark :: rest).dropWhile Char.isDigit = mark :: rest := by
            rw [List.dropWhile_append_of_pos hdigits.isDigit,
              List.dropWhile_cons_of_neg (ne_true_of_eq_false hdigit)]
          apply Moment.read_eq_none <;> simp [hdrop, hhyphen, hcolon]
      | @fraction digits places hdigits =>
          have hdrop : (digits ++ '.' :: places ++ mark :: rest).dropWhile Char.isDigit =
              '.' :: places ++ mark :: rest := by
            rw [List.append_assoc, List.dropWhile_append_of_pos hdigits.isDigit, List.cons_append,
              List.dropWhile_cons_of_neg (by decide)]
          apply Moment.read_eq_none <;> rw [hdrop] <;> simp
      | infinite => exact Moment.read_eq_none_of_not_digit (by decide) _
      | undefined => exact Moment.read_eq_none_of_not_digit (by decide) _

theorem ofWord?_plain (h : Numeral.Plain word) :
    ofWord? word = some (.number (String.ofList word)) := by
  -- The words of both truth values have an `e` in them, and no plain number has.
  have hletter : 'e' ∉ word := fun hmem =>
    Numeral.ne_of_isPlainChar (h.isPlainChar_of_mem _ hmem) 'e' (by decide) rfl
  have htrue : word ≠ ['t', 'r', 'u', 'e'] := by
    rintro rfl
    exact hletter (by decide)
  have hfalse : word ≠ ['f', 'a', 'l', 's', 'e'] := by
    rintro rfl
    exact hletter (by decide)
  simp only [ofWord?, if_neg htrue, if_neg hfalse, Numeral.isNumeral_of_plain h, if_true]

/-- A number in plain notation is read as it is written. -/
theorem readScalar_plain (h : Numeral.Plain word) (hmark : mark ∈ marks) (rest : List Char) :
    readScalar (word ++ mark :: rest) = some (.number (String.ofList word), mark :: rest) := by
  have hplain := h.isPlainChar_of_mem
  have hmoment := read_plain_eq_none h hmark rest
  have hvalue := ofWord?_plain h
  obtain ⟨c, text, rfl, hc⟩ := h.exists_cons
  have hne := Numeral.ne_of_isPlainChar hc
  rw [readScalar_word (hne '"' (by decide)) (hne '\x27' (by decide))
    (fun d hd => isWordChar_of_isPlainChar (hplain d hd)) hmark rest hmoment, hvalue,
    Option.map_some]

end Statement

end ChatIntake.Toml
