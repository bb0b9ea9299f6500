import ChatIntake.Proofs.Listing
import ChatIntake.Proofs.Text.Rows
import ChatIntake.Proofs.Toml.Lines
import ChatIntake.Proofs.Toml.Numeral
import ChatIntake.Proofs.Toml.Sections
import ChatIntake.Toml.Document

/-!
# Values written and read

A value is written on one line, with its lists and inline tables as rows. It is read back,
up to what may follow it, if each table in it has each of its keys once, and otherwise it is
not read at all.
-/

namespace ChatIntake.Toml

open ChatIntake.Text Statement Reader

section Writing

variable (digits : HexDigits)

mutual

/-- The text of a value on one line. -/
def Value.write : Value → List Char
  | .string text => Quoted.write digits text
  | .number numeral => numeral.toList
  | .boolean true => ['t', 'r', 'u', 'e']
  | .boolean false => ['f', 'a', 'l', 's', 'e']
  | .moment clock => clock.write
  | .array [] => ['[', ']']
  | .array (v :: vs) => '[' :: (v.write ++ Value.writeElements vs)
  | .table [] => ['\x7b', '\x7d']
  | .table ((k, v) :: es) =>
    '\x7b' :: (writeAssignment (Quoted.write digits k) v.write ++ Value.writeEntries es)

/-- The elements after one that is written already, and the end of their list. -/
def Value.writeElements : List Value → List Char
  | [] => [']']
  | v :: vs => ',' :: (v.write ++ Value.writeElements vs)

/-- The entries after one that is written already, and the end of their table. -/
def Value.writeEntries : List (String × Value) → List Char
  | [] => ['\x7d']
  | (k, v) :: es =>
    ',' :: (writeAssignment (Quoted.write digits k) v.write ++ Value.writeEntries es)

end

/-- The text of an assignment to one key. -/
def writeEntry (entry : Path × Value) : List Char :=
  writeAssignment (Quoted.write digits entry.1.key) (entry.2.write digits)

theorem writeElements_eq_rowRest (elements : List Value) :
    Value.writeElements digits elements = rowRest ']' (Value.write digits) elements := by
  induction elements with
  | nil => rfl
  | cons v elements ih => rw [Value.writeElements, rowRest_cons, ih]

theorem writeEntries_eq_rowRest (entries : Keyed Value) :
    Value.writeEntries digits entries =
      rowRest '\x7d' (writeEntry digits) (Node.assignments entries) := by
  induction entries with
  | nil => rfl
  | cons entry entries ih =>
      rw [Value.writeEntries, Node.assignments_cons, rowRest_cons, ih, writeEntry]

theorem write_array (elements : List Value) :
    (Value.array elements).write digits = '[' :: row ']' (Value.write digits) elements := by
  cases elements with
  | nil => rfl
  | cons v elements => rw [Value.write, writeElements_eq_rowRest, row]

theorem write_table (entries : Keyed Value) :
    (Value.table entries).write digits =
      '\x7b' :: row '\x7d' (writeEntry digits) (Node.assignments entries) := by
  cases entries with
  | nil => rfl
  | cons entry entries =>
      rw [Value.write, writeEntries_eq_rowRest, Node.assignments_cons, row, writeEntry]

end Writing

/-- The values without a moment in them whose numbers are in plain notation, with lists and
tables nested in them at most `depth` deep. -/
inductive Value.Writable : (depth : Nat) → Value → Prop
  | string {depth : Nat} (text : String) : Writable depth (.string text)
  | number {depth : Nat} {numeral : String} (hplain : Numeral.Plain numeral.toList) :
      Writable depth (.number numeral)
  | boolean {depth : Nat} (value : Bool) : Writable depth (.boolean value)
  | array {depth : Nat} {elements : List Value}
      (helements : ∀ element ∈ elements, Writable depth element) :
      Writable (depth + 1) (.array elements)
  | table {depth : Nat} {entries : List (String × Value)}
      (hvalues : ∀ entry ∈ entries, Writable depth entry.2) :
      Writable (depth + 1) (.table entries)

section Beginnings

variable {digits : HexDigits} {depth : Nat} {v : Value}

/-- No value begins with spacing, a comment or a line break, or with what ends a list. -/
theorem Value.Writable.write_eq_cons (h : v.Writable depth) :
    ∃ c text, v.write digits = c :: text ∧ isSpacing c = false ∧ c ∉ ['#', '\n', '\r', ']'] := by
  cases h with
  | string text => exact ⟨'"', _, by rw [write, Quoted.write], by decide, by decide⟩
  | number hplain =>
      obtain ⟨c, text, hnumeral, hc⟩ := hplain.exists_cons
      have hne := Numeral.ne_of_isPlainChar hc
      refine ⟨c, text, by rw [write, hnumeral], ?_, ?_⟩
      · simp [isSpacing, hne ' ' (by decide), hne '\t' (by decide)]
      · simp [hne '#' (by decide), hne '\n' (by decide), hne '\r' (by decide), hne ']' (by decide)]
  | boolean value => cases value <;> exact ⟨_, _, by rw [write], by decide, by decide⟩
  | array => exact ⟨'[', _, write_array digits _, by decide, by decide⟩
  | table => exact ⟨'\x7b', _, write_table digits _, by decide, by decide⟩

theorem skipLines_cons {c : Char} (hspacing : isSpacing c = false) (hc : c ∉ ['#', '\n', '\r'])
    (comments : Bool) (text : List Char) : skipLines comments (c :: text) = c :: text := by
  simp only [List.mem_cons, List.not_mem_nil, or_false, not_or] at hc
  simp [skipLines, skipLinesWithin, skipSpacing_cons hspacing, skipComment, readBreak, hc]

theorem Value.Writable.skipSpacing_write (h : v.Writable depth) (rest : List Char) :
    skipSpacing (v.write digits ++ rest) = v.write digits ++ rest := by
  obtain ⟨c, text, hwrite, hspacing, _⟩ := h.write_eq_cons
  rw [hwrite, List.cons_append, skipSpacing_cons hspacing]

theorem beginsInRow_element (h : v.Writable depth) :
    BeginsInRow (skipLines true) ']' (Value.write digits) v := by
  obtain ⟨c, text, hwrite, hspacing, hc⟩ := h.write_eq_cons
  simp only [List.mem_cons, List.not_mem_nil, or_false, not_or] at hc
  constructor
  case skip_eq =>
    intro rest
    rw [hwrite, List.cons_append, skipLines_cons hspacing (by simp [hc])]
  case exists_cons => exact ⟨c, text, hwrite, hc.2.2.2⟩

theorem beginsInRow_entry (entry : Path × Value) :
    BeginsInRow skipSpacing '\x7d' (writeEntry digits) entry :=
  ⟨fun _ => skipSpacing_cons (by decide) _, '"', _, rfl, by decide⟩

theorem marksRow_elements : MarksRow (skipLines true) ']' :=
  ⟨by decide, skipLines_cons (by decide) (by decide) true,
    skipLines_cons (by decide) (by decide) true⟩

theorem marksRow_entries : MarksRow skipSpacing '\x7d' :=
  ⟨by decide, skipSpacing_cons (by decide), skipSpacing_cons (by decide)⟩

end Beginnings

/-- What is read off the text of a value, up to any mark. -/
def ReadsAs (digits : HexDigits) (depth : Nat) (v : Value) (result : Option Value) : Prop :=
  ∀ mark ∈ marks, ∀ rest, readValue depth (v.write digits ++ mark :: rest) =
    result.map fun v => (v, mark :: rest)

section Scalars

variable {digits : HexDigits} {depth : Nat} {v : Value}

/-- A value is read as no list and no table if its text begins with neither bracket. -/
theorem readsAs_of_readScalar {c : Char} {text : List Char} (hwrite : v.write digits = c :: text)
    (harray : c ≠ '[') (htable : c ≠ '\x7b')
    (hread : ∀ mark ∈ marks, ∀ rest,
      readScalar (v.write digits ++ mark :: rest) = some (v, mark :: rest)) :
    ReadsAs digits depth v (some v) := by
  intro mark hmark rest
  have hscalar := hread mark hmark rest
  rw [hwrite, List.cons_append] at hscalar ⊢
  cases depth with
  | zero => exact hscalar
  | succ depth => simp only [readValue, if_neg harray, if_neg htable, hscalar, Option.map_some]

theorem readsAs_string (text : String) :
    ReadsAs digits depth (.string text) (some (.string text)) := by
  have hwrite : (Value.string text).write digits = Quoted.write digits text := by rw [Value.write]
  refine readsAs_of_readScalar hwrite (by decide) (by decide) fun mark hmark rest => ?_
  have hquote : (mark :: rest).head? ≠ some '"' := by
    rintro heq
    cases heq
    exact absurd hmark (by decide)
  rw [hwrite]
  simp only [readScalar, Quoted.read_write digits text hquote]

theorem readsAs_number {numeral : String} (hplain : Numeral.Plain numeral.toList) :
    ReadsAs digits depth (.number numeral) (some (.number numeral)) := by
  have hwrite : (Value.number numeral).write digits = numeral.toList := by rw [Value.write]
  obtain ⟨c, text, hnumeral, hc⟩ := hplain.exists_cons
  have hne := Numeral.ne_of_isPlainChar hc
  refine readsAs_of_readScalar (hwrite.trans hnumeral) (hne '[' (by decide))
    (hne '\x7b' (by decide)) fun mark hmark rest => ?_
  rw [hwrite, readScalar_plain hplain hmark rest, String.ofList_toList]

theorem readsAs_boolean (value : Bool) :
    ReadsAs digits depth (.boolean value) (some (.boolean value)) := by
  have hletters : ∀ c ∈ (Value.boolean value).write digits, isWordChar c = true := by
    cases value <;>
      · simp only [Value.write, List.forall_mem_cons, List.not_mem_nil, false_implies,
          implies_true, and_true]
        decide
  cases value <;>
    · rw [Value.write] at hletters
      refine readsAs_of_readScalar (by rw [Value.write]) (by decide) (by decide)
        fun mark hmark rest => ?_
      rw [Value.write, readScalar_word (by decide) (by decide) hletters hmark rest
        (Moment.read_eq_none_of_not_digit (by decide) _)]
      rfl

end Scalars

section Rows

variable {digits : HexDigits} {depth : Nat} {v : Value} {entry : String × Value}
  {entries : Keyed Value} {rest : List Char}

/-- In a row a value is followed by a comma or by the close. -/
theorem ReadsAs.readValue_eq {result : Option Value} (h : ReadsAs digits depth v result)
    {mark close : Char} (hclose : close ∈ marks) (hmark : mark ∈ [',', close])
    (rest : List Char) :
    readValue depth (v.write digits ++ mark :: rest) = result.map fun v => (v, mark :: rest) :=
  h mark (mem_of_mem_pair (by decide) hclose hmark) rest

theorem standsInRow_element (h : v.Writable depth) (hread : ReadsAs digits depth v (some v)) :
    StandsInRow (skipLines true) ']' (readValue depth) (Value.write digits) v :=
  ⟨beginsInRow_element h, fun _ hmark => hread.readValue_eq (by decide) hmark⟩

/-- The key and the equals sign are taken off an entry, and its value is read. -/
theorem readAssignment_writeEntry (h : entry.2.Writable depth)
    (reader : Reader Value) (rest : List Char) :
    readAssignment reader (writeEntry digits (⟨[], entry.1⟩, entry.2) ++ rest) =
      (reader.map fun v => (⟨[], entry.1⟩, v)) (entry.2.write digits ++ rest) := by
  rw [writeEntry, writeAssignment_append]
  exact readAssignment_writeAssignment (writesKey_quoted digits entry.1)
    (h.skipSpacing_write rest) reader

/-- Entries stand in the row of their table if their values are read. -/
theorem standsInRow_assignments (h : ∀ entry ∈ entries, entry.2.Writable depth)
    (hread : ∀ entry ∈ entries, ReadsAs digits depth entry.2 (some entry.2)) :
    ∀ assignment ∈ Node.assignments entries,
      StandsInRow skipSpacing '\x7d' (readAssignment (readValue depth)) (writeEntry digits)
        assignment := by
  intro assignment hassignment
  obtain ⟨entry, hmem, rfl⟩ := List.mem_map.mp hassignment
  refine ⟨beginsInRow_entry _, fun mark hmark rest => ?_⟩
  rw [readAssignment_writeEntry (h entry hmem), Reader.map,
    (hread entry hmem).readValue_eq (by decide) hmark]
  rfl

/-- An inline table is made of values under one key each if the keys are different. -/
theorem inlineTable?_assignments (values : Keyed Value) :
    inlineTable? (Node.assignments values) =
      if (values.map (·.1)).Nodup then some (.table values) else none := by
  have hnil : (([] : Keyed Node).map (·.1)).Nodup := List.nodup_nil
  simp only [inlineTable?, Node.assignAll_assignments values hnil, List.map_nil, List.nil_append]
  split
  · rw [Option.map_some, Node.finishAll_ofValues]
  · rfl

/-- A list is read off its row. -/
theorem readValue_array (elements : List Value) (rest : List Char) :
    readValue (depth + 1) ((Value.array elements).write digits ++ rest) =
      ((listed (skipLines true) true ']' (readValue depth)).map Value.array)
        (row ']' (Value.write digits) elements ++ rest) := by
  rw [write_array, List.cons_append]
  simp only [readValue, if_true]

/-- An inline table is read off its row, and then its keys have to be different. -/
theorem readValue_table (entries : Keyed Value) (rest : List Char) :
    readValue (depth + 1) ((Value.table entries).write digits ++ rest) =
      (listed skipSpacing false '\x7d' (readAssignment (readValue depth))
        (row '\x7d' (writeEntry digits) (Node.assignments entries) ++ rest)).bind fun result =>
          (inlineTable? result.1).map fun v => (v, result.2) := by
  rw [write_table, List.cons_append]
  simp only [readValue, if_neg (show '\x7b' ≠ '[' by decide), if_true]
  cases listed skipSpacing false '\x7d' (readAssignment (readValue depth))
    (row '\x7d' (writeEntry digits) (Node.assignments entries) ++ rest) <;> rfl

theorem readsAs_array {elements : List Value}
    (helements : ∀ element ∈ elements, element.Writable depth)
    (hread : ∀ element ∈ elements, ReadsAs digits depth element (some element)) :
    ReadsAs digits (depth + 1) (.array elements) (some (.array elements)) := by
  intro mark _ rest
  have hrow : ∀ element ∈ elements,
      StandsInRow (skipLines true) ']' (readValue depth) (Value.write digits) element :=
    fun element hmem => standsInRow_element (helements element hmem) (hread element hmem)
  rw [readValue_array, Reader.map, listed_row marksRow_elements hrow]
  rfl

theorem readsAs_table (hvalues : ∀ entry ∈ entries, entry.2.Writable depth)
    (hread : ∀ entry ∈ entries, ReadsAs digits depth entry.2 (some entry.2)) :
    ReadsAs digits (depth + 1) (.table entries)
      (if (entries.map (·.1)).Nodup then some (.table entries) else none) := by
  intro mark _ rest
  rw [readValue_table, listed_row marksRow_entries (standsInRow_assignments hvalues hread),
    Option.bind_some, inlineTable?_assignments]

/-- A value in which every table has each of its keys once is read back. -/
theorem readsAs_of_keyedOnce (h : v.Writable depth) (honce : v.KeyedOnce) :
    ReadsAs digits depth v (some v) := by
  induction h with
  | string text => exact readsAs_string text
  | number hplain => exact readsAs_number hplain
  | boolean value => exact readsAs_boolean value
  | array helements ih =>
      exact readsAs_array helements fun element hmem =>
        ih element hmem (honce.elements element hmem)
  | table hvalues ih =>
      have hread := readsAs_table hvalues fun entry hmem =>
        ih entry hmem (honce.entries.values entry hmem)
      rwa [if_pos honce.entries.keys] at hread

end Rows

end ChatIntake.Toml
