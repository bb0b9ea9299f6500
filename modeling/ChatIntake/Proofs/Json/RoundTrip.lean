import ChatIntake.Json.Compact
import ChatIntake.Json.Document
import ChatIntake.Proofs.Json.Numeral
import ChatIntake.Proofs.Keyed
import ChatIntake.Proofs.Text.Rows

/-!
# Values read back from their text

The compact text of a value determines the value, the order of keys included. This holds
of every value whose numbers are whole and of 64 bits, whose objects have each key once,
and which is not nested deeper than a document may be; its strings may be any.
-/

namespace ChatIntake.Json

open ChatIntake.Text Reader

/-- The values that reading restores from their text, with lists and objects nested in
them at most `depth` deep. -/
inductive Restorable : (depth : Nat) → Json → Prop
  | null {depth : Nat} : Restorable depth .null
  | bool {depth : Nat} (b : Bool) : Restorable depth (.bool b)
  | whole {depth : Nat} {value : Int} (hleast : Numeral.wholeMin ≤ value)
      (hgreatest : value ≤ Numeral.wholeMax) : Restorable depth (.number (.int value))
  | string {depth : Nat} (s : String) : Restorable depth (.string s)
  | array {depth : Nat} {elements : List Json} (helements : ∀ e ∈ elements, Restorable depth e) :
      Restorable (depth + 1) (.array elements)
  | object {depth : Nat} {fields : Fields} (hkeys : (fields.map (·.1)).Nodup)
      (hfields : ∀ field ∈ fields, Restorable depth field.2) :
      Restorable (depth + 1) (.object fields)

/-- The text of a field. -/
def writeField (field : String × Json) : List Char :=
  Quoted.write field.1 ++ ':' :: write field.2

theorem writeElements_eq_rowRest (elements : List Json) :
    writeElements elements = rowRest ']' write elements := by
  induction elements with
  | nil => rfl
  | cons element elements ih => rw [writeElements, rowRest_cons, ih]

theorem writeFields_eq_rowRest (fields : Fields) :
    writeFields fields = rowRest '}' writeField fields := by
  induction fields with
  | nil => rfl
  | cons field fields ih =>
      rw [writeFields, rowRest_cons, ih, writeField, List.append_assoc, List.cons_append]

theorem write_array (elements : List Json) :
    write (.array elements) = '[' :: row ']' write elements := by
  cases elements with
  | nil => rfl
  | cons element elements => rw [write, writeElements_eq_rowRest, row]

theorem write_object (fields : Fields) :
    write (.object fields) = '{' :: row '}' writeField fields := by
  cases fields with
  | nil => rfl
  | cons field fields =>
      rw [write, writeFields_eq_rowRest, row, writeField, List.append_assoc, List.cons_append]

/-- A text that may follow a value: nothing, or one of the marks after a part. -/
def Follows (rest : List Char) : Prop :=
  ∀ c, rest.head? = some c → c ∈ [',', ']', '}']

theorem follows_nil : Follows [] := by
  intro c hc
  cases hc

theorem follows_cons {c : Char} (hc : c ∈ [',', ']', '}']) (rest : List Char) :
    Follows (c :: rest) := by
  intro d hd
  cases hd
  exact hc

theorem Follows.stops {rest : List Char} (h : Follows rest) : Numeral.Stops rest := by
  have hmarks : ∀ c ∈ [',', ']', '}'], c.isDigit = false ∧ c ∉ ['.', 'e', 'E'] := by
    simp only [List.forall_mem_cons, List.not_mem_nil, false_implies, implies_true, and_true]
    decide
  intro c hc
  exact hmarks c (h c hc)

section Beginnings

/-- Whether a whole number may begin with a character. -/
def startsWhole (c : Char) : Bool := c.isDigit || c = '-'

theorem ne_of_startsWhole {c d : Char} (hc : startsWhole c = true) (hd : startsWhole d = false) :
    c ≠ d := by
  rintro rfl
  rw [hc] at hd
  cases hd

theorem write_int_eq_cons (value : Int) :
    ∃ c text, Numeral.write (.int value) = c :: text ∧ startsWhole c = true := by
  by_cases hneg : value < 0
  · refine ⟨'-', Decimal.digits value.natAbs, ?_, by decide⟩
    simp only [Numeral.write, if_pos hneg]
  · cases hdigits : Decimal.digits value.natAbs with
    | nil => exact absurd hdigits (Decimal.digits_ne_nil value.natAbs)
    | cons c text =>
        have hc : c.isDigit = true :=
          Decimal.isDigit_of_mem_digits value.natAbs c (by simp [hdigits])
        refine ⟨c, text, ?_, by simp [startsWhole, hc]⟩
        simp only [Numeral.write, if_neg hneg, hdigits]

/-- No value begins with a space, or with a mark that ends a list. -/
theorem Restorable.write_eq_cons {depth : Nat} {value : Json} (h : Restorable depth value) :
    ∃ c text, write value = c :: text ∧ isSpacing c = false ∧ c ≠ ']' := by
  cases h with
  | null => exact ⟨'n', _, by rw [write], by decide, by decide⟩
  | bool b => cases b <;> exact ⟨_, _, by rw [write], by decide, by decide⟩
  | @whole _ value =>
      obtain ⟨c, text, hwrite, hc⟩ := write_int_eq_cons value
      refine ⟨c, text, by rw [write, hwrite], ?_, ne_of_startsWhole hc (by decide)⟩
      simp [isSpacing, ne_of_startsWhole hc (show startsWhole ' ' = false by decide),
        ne_of_startsWhole hc (show startsWhole '\t' = false by decide),
        ne_of_startsWhole hc (show startsWhole '\n' = false by decide),
        ne_of_startsWhole hc (show startsWhole '\r' = false by decide)]
  | string s => exact ⟨'"', _, by rw [write, Quoted.write], by decide, by decide⟩
  | array => exact ⟨'[', _, write_array _, by decide, by decide⟩
  | object => exact ⟨'{', _, write_object _, by decide, by decide⟩

theorem skipSpacing_cons {c : Char} (hc : isSpacing c = false) (text : List Char) :
    skipSpacing (c :: text) = c :: text := by
  simp [skipSpacing, hc]

theorem Restorable.skipSpacing_write {depth : Nat} {value : Json} (h : Restorable depth value)
    (rest : List Char) : skipSpacing (write value ++ rest) = write value ++ rest := by
  obtain ⟨c, text, hwrite, hspace, _⟩ := h.write_eq_cons
  rw [hwrite, List.cons_append, skipSpacing_cons hspace]

theorem marksRow {close : Char} (hclose : close ∈ [']', '}']) : MarksRow skipSpacing close := by
  have hmarks : ∀ c ∈ [']', '}'], c ≠ ',' ∧ isSpacing c = false := by
    simp only [List.forall_mem_cons, List.not_mem_nil, false_implies, implies_true, and_true]
    decide
  obtain ⟨hne, hspace⟩ := hmarks close hclose
  exact ⟨hne, skipSpacing_cons (by decide), skipSpacing_cons hspace⟩

end Beginnings

section Scalars

variable {rest : List Char}

theorem readValue_eq_readScalar {c : Char} (harray : c ≠ '[') (hobject : c ≠ '{') (depth : Nat)
    (text : List Char) : readValue depth (c :: text) = readScalar (c :: text) := by
  cases depth with
  | zero => rfl
  | succ depth => simp only [readValue, if_neg harray, if_neg hobject]

/-- A text that begins with none of the first letters of the three words is none of them. -/
theorem readScalar_of_not_word {c : Char} (hc : c ∉ ['n', 't', 'f']) (text : List Char) :
    readScalar (c :: text) =
      match Quoted.read (c :: text) with
      | some (s, rest) => some (.string s, rest)
      | none => (Numeral.read.map number) (c :: text) := by
  simp only [List.mem_cons, List.not_mem_nil, or_false, not_or] at hc
  cases hread : Quoted.read (c :: text) <;>
    simp only [readScalar, Reader.word, if_neg hc.1, if_neg hc.2.1, if_neg hc.2.2, hread]

theorem readScalar_string (s : String) :
    readScalar (Quoted.write s ++ rest) = some (.string s, rest) := by
  have hread := Quoted.read_write s rest
  rw [Quoted.write, List.cons_append] at hread ⊢
  rw [readScalar_of_not_word (by decide), hread]

theorem readScalar_whole {value : Int} (hleast : Numeral.wholeMin ≤ value)
    (hgreatest : value ≤ Numeral.wholeMax) (hrest : Numeral.Stops rest) :
    readScalar (Numeral.write (.int value) ++ rest) = some (.number (.int value), rest) := by
  have hread := Numeral.read_write_int hleast hgreatest hrest
  obtain ⟨c, text, hwrite, hc⟩ := write_int_eq_cons value
  rw [hwrite, List.cons_append] at hread ⊢
  have hword : c ∉ ['n', 't', 'f'] := by
    simp only [List.mem_cons, List.not_mem_nil, or_false, not_or]
    exact ⟨ne_of_startsWhole hc (by decide), ne_of_startsWhole hc (by decide),
      ne_of_startsWhole hc (by decide)⟩
  have hquote : c ≠ '"' := ne_of_startsWhole hc (by decide)
  have hnone : Quoted.read (c :: (text ++ rest)) = none := by
    simp [Quoted.read, Reader.char, hquote]
  rw [readScalar_of_not_word hword, hnone]
  simp [Reader.map, hread]

end Scalars

theorem collect_of_nodup {fields : Fields} (h : (fields.map (·.1)).Nodup) :
    collect fields = .object fields := by
  rw [collect, Keyed.foldl_insert [] (by simpa using h), List.nil_append]

/-- A value is read back from its text, and what may follow it is left. -/
theorem readValue_write {depth : Nat} {value : Json} (h : Restorable depth value)
    {rest : List Char} (hrest : Follows rest) :
    readValue depth (write value ++ rest) = some (value, rest) := by
  induction h generalizing rest with
  | null =>
      simp only [write, List.cons_append]
      rw [readValue_eq_readScalar (by decide) (by decide)]
      simp [readScalar, Reader.word]
  | bool b =>
      cases b <;>
        · simp only [write, List.cons_append]
          rw [readValue_eq_readScalar (by decide) (by decide)]
          simp [readScalar, Reader.word]
  | @whole _ value hleast hgreatest =>
      have hread := readScalar_whole hleast hgreatest hrest.stops
      obtain ⟨c, text, hwrite, hc⟩ := write_int_eq_cons value
      rw [write]
      rw [hwrite, List.cons_append] at hread ⊢
      rw [readValue_eq_readScalar (ne_of_startsWhole hc (by decide))
        (ne_of_startsWhole hc (by decide)), hread]
  | string s =>
      have hread : readScalar (Quoted.write s ++ rest) = some (.string s, rest) :=
        readScalar_string s
      rw [write]
      rw [Quoted.write, List.cons_append] at hread ⊢
      rw [readValue_eq_readScalar (by decide) (by decide), hread]
  | @array depth elements helements ih =>
      have hrow : ∀ e ∈ elements, StandsInRow skipSpacing ']' (readValue depth) write e := by
        intro e he
        obtain ⟨c, text, hwrite, _, hc⟩ := (helements e he).write_eq_cons
        constructor
        case begins => exact ⟨(helements e he).skipSpacing_write, c, text, hwrite, hc⟩
        case read_eq =>
          intro mark hmark rest
          exact ih e he (follows_cons (mem_of_mem_pair (by decide) (by decide) hmark) rest)
      rw [write_array, List.cons_append]
      simp only [readValue, if_true, Reader.map, listed_row (marksRow (by decide)) hrow,
        Option.map_some]
  | @object depth fields hkeys hfields ih =>
      have hread : ∀ field ∈ fields, ∀ after, Follows after →
          readField (readValue depth) (writeField field ++ after) = some (field, after) := by
        intro field hfield after hafter
        simp only [readField, writeField, List.append_assoc, List.cons_append, Quoted.read_write,
          skipSpacing_cons (show isSpacing ':' = false by decide), char_cons,
          (hfields field hfield).skipSpacing_write, Reader.map, ih field hfield hafter,
          Option.map_some]
      have hrow : ∀ field ∈ fields,
          StandsInRow skipSpacing '}' (readField (readValue depth)) writeField field := by
        intro field hfield
        constructor
        case begins => exact ⟨fun _ => skipSpacing_cons (by decide) _, '"', _, rfl, by decide⟩
        case read_eq =>
          intro mark hmark rest
          exact hread field hfield _
            (follows_cons (mem_of_mem_pair (by decide) (by decide) hmark) rest)
      rw [write_object, List.cons_append]
      simp only [readValue, if_neg (show '{' ≠ '[' by decide), if_true, Reader.map,
        listed_row (marksRow (by decide)) hrow, Option.map_some, collect_of_nodup hkeys]

/-- The compact text of a value is a document of that value. -/
theorem parse?_compact {value : Json} (h : Restorable depthMax value) :
    parse? value.compact = some value := by
  have hread := readValue_write h follows_nil
  have hskip := h.skipSpacing_write []
  have hnil : skipSpacing [] = [] := rfl
  rw [List.append_nil] at hread hskip
  simp only [parse?, compact, String.toList_ofList, hskip, hread, hnil, List.isEmpty_nil, if_true]

end ChatIntake.Json
