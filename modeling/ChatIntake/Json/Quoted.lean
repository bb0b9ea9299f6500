import ChatIntake.Text.Hex

/-!
# Quoted strings

A string is written between quotation marks. The quotation mark, the backslash
and the control characters are escaped, and every other character stands for
itself. Every written character is read back, and none of them starts with the
closing mark.
-/

namespace ChatIntake.Json.Quoted

open ChatIntake.Text

/-- The characters that are escaped by one letter, with that letter. -/
def letters : List (Char × Char) :=
  [('"', '"'), ('\\', '\\'), ('\x08', 'b'), ('\x0c', 'f'), ('\n', 'n'), ('\r', 'r'), ('\t', 't')]

/-- The written form of a character within a string. -/
def escape (c : Char) : List Char :=
  match letters.lookup c with
  | some letter => ['\\', letter]
  | none =>
    if c.toNat < 0x20 then ['\\', 'u', '0', '0', hexChar (c.toNat / 16), hexChar (c.toNat % 16)]
    else [c]

/-- The written form of a string. -/
def write (s : String) : List Char := '"' :: (s.toList.flatMap escape ++ ['"'])

/-- The characters that a letter after a backslash may stand for. -/
def unescape (letter : Char) : Option Char :=
  if letter = '/' then some '/'
  else ((letters.map fun pair => (pair.2, pair.1)).lookup letter)

/-- Read the code point after `\u`. A high surrogate has to be followed by the
escape of a low one, and the two stand for one character. -/
def readCodePoint (s : List Char) : Option (Char × List Char) :=
  match readHex 4 0 s with
  | none => none
  | some (n, rest) =>
    if 0xD800 ≤ n ∧ n < 0xDC00 then
      match Reader.word ['\\', 'u'] rest with
      | none => none
      | some (_, rest) =>
        match readHex 4 0 rest with
        | none => none
        | some (low, rest) =>
          if 0xDC00 ≤ low ∧ low < 0xE000 then
            (scalar? (0x10000 + (n - 0xD800) * 0x400 + (low - 0xDC00))).map fun c => (c, rest)
          else none
    else (scalar? n).map fun c => (c, rest)

/-- Read one character within a string. Control characters are refused. -/
def readChar : Reader Char
  | [] => none
  | c :: rest =>
    if c = '\\' then
      match rest with
      | [] => none
      | letter :: rest =>
        if letter = 'u' then readCodePoint rest
        else (unescape letter).map fun c => (c, rest)
    else if c.toNat < 0x20 then none
    else some (c, rest)

/-- Read a string whose opening mark was taken. -/
def readRest : Reader String :=
  Reader.map (fun result => String.ofList result.1) (Reader.untilClosed (Reader.char '"') readChar)

/-- Read a string with its marks. -/
def read : Reader String := fun s =>
  match Reader.char '"' s with
  | none => none
  | some (_, rest) => readRest rest

theorem escape_ne_nil (c : Char) : escape c ≠ [] := by
  unfold escape
  split
  · simp
  · split <;> simp

theorem lookup_letters_none {c : Char} (h : letters.lookup c = none) : c ≠ '"' ∧ c ≠ '\\' := by
  constructor <;> rintro rfl <;> exact absurd h (by decide)

theorem unescape_of_lookup {c letter : Char} (h : letters.lookup c = some letter) :
    letter ≠ 'u' ∧ unescape letter = some c := by
  have all : ∀ pair ∈ letters, pair.2 ≠ 'u' ∧ unescape pair.2 = some pair.1 := by decide
  obtain ⟨_, _, here, _⟩ := List.lookup_eq_some_iff.mp h
  exact all (c, letter) (by simp [here])

/-- A character is read back from its written form. -/
theorem readChar_escape (c : Char) (rest : List Char) :
    readChar (escape c ++ rest) = some (c, rest) := by
  unfold escape
  split
  · next letter h =>
    obtain ⟨notU, back⟩ := unescape_of_lookup h
    simp [readChar, notU, back]
  · next h =>
    obtain ⟨notMark, notBackslash⟩ := lookup_letters_none h
    split
    · next low =>
      have high : c.toNat / 16 < 16 := by omega
      have small : ¬(0xD800 ≤ c.toNat ∧ c.toNat < 0xDC00) := by omega
      have zero : hexValue? '0' = some 0 := by decide
      have whole : 16 * (c.toNat / 16) + c.toNat % 16 = c.toNat := by omega
      simp [readChar, readCodePoint, readHex, zero, hexValue?_hexChar high,
        hexValue?_hexChar (Nat.mod_lt c.toNat (by omega : 0 < 16)), whole, small, scalar?_toNat]
    · next high => simp [readChar, notBackslash, high]

/-- No written character starts with the closing mark. -/
theorem close_escape (c : Char) (rest : List Char) :
    Reader.char '"' (escape c ++ rest) = none := by
  unfold escape
  split
  · simp [Reader.char]
  · next h => split <;> simp [Reader.char, (lookup_letters_none h).1]

/-- A string is read back from its written form. -/
theorem read_write (s : String) (rest : List Char) : read (write s ++ rest) = some (s, rest) := by
  have body : Reader.untilClosed (Reader.char '"') readChar
      (s.toList.flatMap escape ++ '"' :: rest) = some ((s.toList, ()), rest) :=
    Reader.untilClosed_flatMap s.toList (fun c _ r => readChar_escape c r)
      (fun c _ r => close_escape c r) (fun c _ => escape_ne_nil c) (by simp) (by simp)
  simp [read, write, readRest, Reader.map, body, String.ofList_toList]

end ChatIntake.Json.Quoted
