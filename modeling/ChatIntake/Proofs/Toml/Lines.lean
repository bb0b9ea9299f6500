import ChatIntake.Proofs.Toml.Quoted
import ChatIntake.Toml.Statement
import Mathlib.Data.List.Forall2

/-!
# Statements written one to a line

Headers whose keys need no marks, and assignments of one value to one key, are read back
from their lines. A file of such lines is read as the row of their statements, so what the
file holds can be told line by line, and one line that makes no statement spoils the file.
-/

namespace ChatIntake.Toml

theorem skipSpacing_cons {c : Char} (hc : isSpacing c = false) (text : List Char) :
    skipSpacing (c :: text) = c :: text := by
  simp [skipSpacing, hc]

namespace Statement

open ChatIntake.Text

/-- A line that begins with what it is to make: neither with spacing, nor with a comment, nor
with a line break. -/
def BeginsLine (line : List Char) : Prop :=
  ∃ c text, line = c :: text ∧ isSpacing c = false ∧ c ∉ ['#', '\n', '\r']

/-- A line that makes a statement up to its end. -/
structure Makes (line : List Char) (statement : Statement) : Prop where
  begins : BeginsLine line
  read_eq : ∀ rest, read (line ++ '\n' :: rest) = some (statement, '\n' :: rest)

/-- The text of a file with these lines. -/
def writeLines (lines : List (List Char)) : List Char :=
  lines.flatMap fun line => line ++ ['\n']

section Lines

variable {line rest : List Char} {statement : Statement}

theorem endLine_break (rest : List Char) : endLine ('\n' :: rest) = some rest := by
  simp [endLine, skipSpacing, skipComment, isSpacing, readBreak]

theorem BeginsLine.skipSpacing_eq (h : BeginsLine line) (rest : List Char) :
    skipSpacing (line ++ rest) = line ++ rest := by
  obtain ⟨c, text, rfl, hspacing, _⟩ := h
  exact skipSpacing_cons hspacing _

theorem BeginsLine.endLine_eq_none (h : BeginsLine line) (rest : List Char) :
    endLine (line ++ rest) = none := by
  have hskip := h.skipSpacing_eq rest
  obtain ⟨c, text, rfl, _, hc⟩ := h
  simp only [List.mem_cons, List.not_mem_nil, or_false, not_or] at hc
  rw [List.cons_append] at hskip ⊢
  simp [endLine, hskip, skipComment, readBreak, hc]

/-- What a line makes is what is read off it. -/
theorem BeginsLine.readAllWithin_eq (h : BeginsLine line) (c : Char) (bound : List Char) :
    readAllWithin (c :: bound) (line ++ '\n' :: rest) =
      match read (line ++ '\n' :: rest) with
      | none => none
      | some (statement, rest) =>
        match endLine rest with
        | none => none
        | some rest => (readAllWithin bound rest).map (statement :: ·) := by
  have hskip := h.skipSpacing_eq ('\n' :: rest)
  have hend := h.endLine_eq_none ('\n' :: rest)
  obtain ⟨first, text, rfl, _⟩ := h
  rw [List.cons_append] at hskip hend ⊢
  simp only [readAllWithin, hskip, hend]
  cases read (first :: (text ++ '\n' :: rest)) with
  | none => rfl
  | some result =>
      cases hrest : endLine result.2 with
      | none => simp only [hrest]
      | some rest =>
          simp only [hrest]
          cases readAllWithin bound rest <;> rfl

theorem readAllWithin_line (h : Makes line statement) (c : Char) (bound : List Char) :
    readAllWithin (c :: bound) (line ++ '\n' :: rest) =
      (readAllWithin bound rest).map (statement :: ·) := by
  rw [h.begins.readAllWithin_eq]
  simp only [h.read_eq, endLine_break]

theorem writeLines_cons (line : List Char) (lines : List (List Char)) :
    writeLines (line :: lines) = line ++ '\n' :: writeLines lines := by
  simp [writeLines]

theorem readAllWithin_writeLines {lines : List (List Char)} {statements : List Statement}
    (h : List.Forall₂ Makes lines statements) (bound : List Char)
    (hbound : lines.length ≤ bound.length) :
    readAllWithin bound (writeLines lines) = some statements := by
  induction h generalizing bound with
  | nil => cases bound <;> rfl
  | @cons line statement lines statements hline _ ih =>
      cases bound with
      | nil => simp at hbound
      | cons c bound =>
          have hrest := ih bound (by simpa using hbound)
          rw [writeLines_cons, readAllWithin_line hline, hrest, Option.map_some]

theorem length_le_length_writeLines (lines : List (List Char)) :
    lines.length ≤ (writeLines lines).length := by
  induction lines with
  | nil => exact Nat.zero_le _
  | cons line lines ih =>
      rw [writeLines_cons]
      simp only [List.length_cons, List.length_append]
      omega

/-- A file of lines is read as the row of their statements. -/
theorem readAll_writeLines {lines : List (List Char)} {statements : List Statement}
    (h : List.Forall₂ Makes lines statements) : readAll (writeLines lines) = some statements :=
  readAllWithin_writeLines h _ (length_le_length_writeLines lines)

end Lines

section Keys

variable {rest : List Char}

/-- A key that may be written without marks. -/
structure IsBareKey (key : String) : Prop where
  all_bare : ∀ c ∈ key.toList, isBare c = true
  ne_empty : key ≠ ""

instance (key : String) : Decidable (IsBareKey key) :=
  decidable_of_iff (key.toList.all isBare = true ∧ key ≠ "")
    ⟨fun h => ⟨List.all_eq_true.mp h.1, h.2⟩, fun h => ⟨List.all_eq_true.mpr h.1, h.2⟩⟩

/-- A text goes on with something that is no part of a key without marks. -/
def EndsKey (rest : List Char) : Prop := ∀ c, rest.head? = some c → isBare c = false

theorem endsKey_cons {c : Char} (h : isBare c = false) (rest : List Char) :
    EndsKey (c :: rest) := by
  intro d hd
  cases hd
  exact h

/-- A key without marks begins neither with a mark nor with what ends a line. -/
theorem IsBareKey.exists_cons {key : String} (h : IsBareKey key) :
    ∃ c text, key.toList = c :: text ∧ isBare c = true := by
  cases hkey : key.toList with
  | nil => exact absurd (String.toList_eq_nil_iff.mp hkey) h.ne_empty
  | cons c text => exact ⟨c, text, rfl, h.all_bare c (by simp [hkey])⟩

theorem ne_of_isBare {c d : Char} (hc : isBare c = true) (hd : isBare d = false) : c ≠ d := by
  rintro rfl
  rw [hc] at hd
  cases hd

theorem takeWhile_isBare {word : List Char} (hword : ∀ c ∈ word, isBare c = true)
    (hrest : EndsKey rest) : (word ++ rest).takeWhile isBare = word := by
  rw [List.takeWhile_append_of_pos hword]
  cases rest with
  | nil => simp
  | cons c rest => simp [hrest c rfl]

theorem dropWhile_isBare {word : List Char} (hword : ∀ c ∈ word, isBare c = true)
    (hrest : EndsKey rest) : (word ++ rest).dropWhile isBare = rest := by
  rw [List.dropWhile_append_of_pos hword]
  cases rest with
  | nil => rfl
  | cons c rest => simp [hrest c rfl]

theorem readKey_bare {key : String} (h : IsBareKey key) (hrest : EndsKey rest) :
    readKey (key.toList ++ rest) = some (key, rest) := by
  have hmarks : Quoted.readKey (key.toList ++ rest) = none := by
    obtain ⟨c, text, hkey, hc⟩ := h.exists_cons
    have hquote : c ≠ '"' := ne_of_isBare hc (by decide)
    have hapostrophe : c ≠ '\x27' := ne_of_isBare hc (by decide)
    simp [hkey, Quoted.readKey, hquote, hapostrophe]
  simp [readKey, hmarks, takeWhile_isBare h.all_bare hrest, dropWhile_isBare h.all_bare hrest,
    h.ne_empty]

theorem readKey_quoted (digits : HexDigits) (key : String) :
    readKey (Quoted.write digits key ++ rest) = some (key, rest) := by
  simp only [readKey, Quoted.readKey_write]

/-- A key is the whole path if no point follows it. -/
theorem readKeys_of_readKey {s after : List Char} {key : String} {c : Char} {text : List Char}
    (hkey : readKey s = some (key, after)) (hskip : skipSpacing after = c :: text)
    (hc : c ≠ '.') (count : Nat) :
    readKeys (count + 1) s = some (⟨[], key⟩, c :: text) := by
  simp only [readKeys, hkey, hskip, if_neg hc]

end Keys

section Headers

/-- Keys without marks, with points between them. -/
def writeKeys : (tables : List String) → (key : String) → List Char
  | [], key => key.toList
  | outer :: tables, key => outer.toList ++ '.' :: writeKeys tables key

/-- The header of a table under keys without marks. -/
def writeHeader (path : Path) : List Char :=
  '[' :: (writeKeys path.tables path.key ++ [']'])

variable {rest : List Char}

theorem exists_cons_writeKeys {tables : List String} {key : String}
    (h : ∀ k ∈ tables ++ [key], IsBareKey k) :
    ∃ c text, writeKeys tables key = c :: text ∧ isBare c = true := by
  cases tables with
  | nil => exact (h key (by simp)).exists_cons
  | cons outer tables =>
      obtain ⟨c, text, houter, hc⟩ := (h outer (by simp)).exists_cons
      exact ⟨c, text ++ '.' :: writeKeys tables key, by simp [writeKeys, houter], hc⟩

theorem skipSpacing_writeKeys {tables : List String} {key : String}
    (h : ∀ k ∈ tables ++ [key], IsBareKey k) (rest : List Char) :
    skipSpacing (writeKeys tables key ++ rest) = writeKeys tables key ++ rest := by
  obtain ⟨c, text, hkeys, hc⟩ := exists_cons_writeKeys h
  have hblank : c ≠ ' ' := ne_of_isBare hc (by decide)
  have htab : c ≠ '\t' := ne_of_isBare hc (by decide)
  simp [hkeys, skipSpacing, isSpacing, hblank, htab]

theorem readKeys_writeKeys {tables : List String} {key : String}
    (h : ∀ k ∈ tables ++ [key], IsBareKey k) (count : Nat) (hcount : tables.length < count) :
    readKeys count (writeKeys tables key ++ ']' :: rest) =
      some (⟨tables, key⟩, ']' :: rest) := by
  induction tables generalizing count with
  | nil =>
      cases count with
      | zero => simp at hcount
      | succ count =>
          have hkey := readKey_bare (h key (by simp))
            (endsKey_cons (show isBare ']' = false by decide) rest)
          exact readKeys_of_readKey hkey (skipSpacing_cons (by decide) rest) (by decide) count
  | cons outer tables ih =>
      cases count with
      | zero => simp at hcount
      | succ count =>
          obtain ⟨houter, hrest⟩ := List.forall_mem_cons.mp h
          have hread := ih hrest count (by simpa using hcount)
          have hskip := skipSpacing_writeKeys hrest (']' :: rest)
          have hkey := readKey_bare houter (endsKey_cons (show isBare '.' = false by decide)
            (writeKeys tables key ++ ']' :: rest))
          have hpoint : ∀ t, skipSpacing ('.' :: t) = '.' :: t := skipSpacing_cons (by decide)
          simp only [writeKeys, List.append_assoc, List.cons_append, readKeys, hkey, hpoint,
            if_true, hskip, hread, Path.within]

/-- A header is read back from its line. -/
theorem makes_header {path : Path} (hbare : ∀ key ∈ path.keys, IsBareKey key)
    (hlength : path.tables.length < keysMax) : Makes (writeHeader path) (.table path) := by
  constructor
  case begins => exact ⟨'[', _, rfl, by decide, by decide⟩
  case read_eq =>
    intro rest
    have hkeys : readPath (writeKeys path.tables path.key ++ ']' :: '\n' :: rest) =
        some (path, ']' :: '\n' :: rest) :=
      readKeys_writeKeys hbare keysMax hlength
    have hskip := skipSpacing_writeKeys hbare (']' :: '\n' :: rest)
    have hheader : readHeader [']'] (writeKeys path.tables path.key ++ ']' :: '\n' :: rest) =
        some (path, '\n' :: rest) := by
      simp [readHeader, hskip, hkeys, Reader.map, Reader.word]
    obtain ⟨c, text, hwrite, hc⟩ := exists_cons_writeKeys hbare
    have hbracket : c ≠ '[' := ne_of_isBare hc (by decide)
    rw [hwrite, List.cons_append] at hheader
    simp [writeHeader, hwrite, read, Reader.word, hbracket, Reader.char, Reader.map, hheader]

end Headers

section Assignments

/-- A written key, up to a blank. It begins neither with spacing nor with a bracket, a comment
or a line break. -/
structure WritesKey (written : List Char) (key : String) : Prop where
  read_eq : ∀ rest, readKey (written ++ ' ' :: rest) = some (key, ' ' :: rest)
  exists_cons : ∃ c text, written = c :: text ∧ isSpacing c = false ∧ c ∉ ['[', '#', '\n', '\r']

theorem writesKey_bare {key : String} (h : IsBareKey key) : WritesKey key.toList key := by
  constructor
  case read_eq => exact fun rest => readKey_bare h (endsKey_cons (by decide) rest)
  case exists_cons =>
    obtain ⟨c, text, hkey, hc⟩ := h.exists_cons
    have hne : ∀ d, isBare d = false → c ≠ d := fun d hd => ne_of_isBare hc hd
    refine ⟨c, text, hkey, ?_, ?_⟩
    · simp [isSpacing, hne ' ' (by decide), hne '\t' (by decide)]
    · simp [hne '[' (by decide), hne '#' (by decide), hne '\n' (by decide), hne '\r' (by decide)]

/-- Any key may be written between marks. -/
theorem writesKey_quoted (digits : HexDigits) (key : String) :
    WritesKey (Quoted.write digits key) key :=
  ⟨fun _ => readKey_quoted digits key, '"', _, rfl, by decide, by decide⟩

/-- A value after its key, with a blank on both sides of the equals sign. -/
def writeAssignment (key value : List Char) : List Char := key ++ ' ' :: '=' :: ' ' :: value

theorem writeAssignment_append (key value rest : List Char) :
    writeAssignment key value ++ rest = writeAssignment key (value ++ rest) := by
  simp [writeAssignment]

variable {written value : List Char} {key : String}

/-- The key and the equals sign are taken off an assignment, and the value is read. -/
theorem readAssignment_writeAssignment (hkey : WritesKey written key)
    (hvalue : skipSpacing value = value) (reader : Reader Value) :
    readAssignment reader (writeAssignment written value) =
      (reader.map fun v => (⟨[], key⟩, v)) value := by
  have hequals : skipSpacing (' ' :: '=' :: ' ' :: value) = '=' :: ' ' :: value := by
    simp [skipSpacing, isSpacing]
  have hpath : readPath (written ++ ' ' :: '=' :: ' ' :: value) =
      some (⟨[], key⟩, '=' :: ' ' :: value) :=
    readKeys_of_readKey (hkey.read_eq _) hequals (by decide) 79
  have hskip : skipSpacing (' ' :: value) = value := by
    rw [skipSpacing, List.dropWhile_cons_of_pos (by decide)]
    exact hvalue
  simp only [readAssignment, writeAssignment, hpath, Reader.char_cons, hskip]

theorem read_writeAssignment (hkey : WritesKey written key) (hvalue : skipSpacing value = value) :
    read (writeAssignment written value) =
      ((readValue depthMax).map fun v => assignment ⟨[], key⟩ v) value := by
  have hread := readAssignment_writeAssignment hkey hvalue (readValue depthMax)
  obtain ⟨c, text, rfl, _, hc⟩ := hkey.exists_cons
  have hbracket : c ≠ '[' := fun heq => hc (heq ▸ List.mem_cons_self)
  simp only [read, writeAssignment, List.cons_append, Reader.word, Reader.char,
    if_neg hbracket] at hread ⊢
  simp only [Reader.map, hread, Option.map_map, Function.comp_def]

theorem beginsLine_writeAssignment (hkey : WritesKey written key) (value : List Char) :
    BeginsLine (writeAssignment written value) := by
  obtain ⟨c, text, rfl, hspacing, hc⟩ := hkey.exists_cons
  rw [List.mem_cons, not_or] at hc
  exact ⟨c, _, rfl, hspacing, hc.2⟩

/-- An assignment is read back from its line if its key and its value are. -/
theorem makes_assignment (hkey : WritesKey written key) {v : Value}
    (hskip : ∀ rest, skipSpacing (value ++ rest) = value ++ rest)
    (hvalue : ∀ rest, readValue depthMax (value ++ '\n' :: rest) = some (v, '\n' :: rest)) :
    Makes (writeAssignment written value) (.assignment ⟨[], key⟩ v) := by
  refine ⟨beginsLine_writeAssignment hkey value, fun rest => ?_⟩
  rw [writeAssignment_append, read_writeAssignment hkey (hskip _), Reader.map, hvalue,
    Option.map_some]

end Assignments

end Statement

end ChatIntake.Toml
