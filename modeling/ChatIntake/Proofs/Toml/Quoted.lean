import ChatIntake.Toml.Quoted

/-!
# Quoted texts read back

A text is written on one line between quotation marks. Marks and backslashes follow a
backslash, control characters are written by their code points, and every other character
stands for itself. Whatever the text, it is read back, as a value and as a key.
-/

namespace ChatIntake

/-- A choice of sixteen hexadecimal digits, which may be of either case. -/
structure Text.HexDigits where
  char : Nat → Char
  value : ∀ d < 16, hexValue? (char d) = some d

namespace Text.HexDigits

/-- The digits in lower case. -/
def lower : HexDigits := ⟨hexChar, fun _ => hexValue?_hexChar⟩

end Text.HexDigits

namespace Toml.Quoted

open ChatIntake.Text

variable (digits : HexDigits)

/-- Whether a character is written by its code point. -/
def IsControl (c : Char) : Prop := c.toNat < 0x20 ∨ c.toNat = 0x7F

instance (c : Char) : Decidable (IsControl c) := inferInstanceAs (Decidable (_ ∨ _))

/-- The written form of a character within a text. -/
def escape (c : Char) : List Char :=
  if c = '"' ∨ c = '\\' then ['\\', c]
  else if IsControl c then
    ['\\', 'u', '0', '0', digits.char (c.toNat / 16), digits.char (c.toNat % 16)]
  else [c]

/-- The written form of a text. -/
def write (s : String) : List Char := '"' :: (s.toList.flatMap (escape digits) ++ ['"'])

theorem isPrintable_of_not_isControl {c : Char} (h : ¬ IsControl c) : isPrintable c = true := by
  simp only [IsControl, not_or, Nat.not_lt] at h
  simp [isPrintable, h.1, h.2]

/-- The two digits of a control character stand for its code point. -/
theorem readCodePoint_control {c : Char} (h : IsControl c) (rest : List Char) :
    readCodePoint 4 ('0' :: '0' :: digits.char (c.toNat / 16) :: digits.char (c.toNat % 16) ::
      rest) = some (c, rest) := by
  have hhigh : c.toNat / 16 < 16 := by
    simp only [IsControl] at h
    omega
  have hlow : c.toNat % 16 < 16 := Nat.mod_lt _ (by decide)
  have hzero : hexValue? '0' = some 0 := by decide
  have hwhole : 16 * (c.toNat / 16) + c.toNat % 16 = c.toNat := Nat.div_add_mod _ _
  simp [readCodePoint, readHex, hzero, digits.value _ hhigh, digits.value _ hlow, hwhole,
    scalar?_toNat]

/-- A character is read back from its written form. -/
theorem readChar_escape (c : Char) (rest : List Char) :
    readChar (escape digits c ++ rest) = some (c, rest) := by
  unfold escape
  split
  · next hmark =>
      have hmarks : letters.lookup '"' = some '"' ∧ letters.lookup '\\' = some '\\' := ⟨rfl, rfl⟩
      rcases hmark with rfl | rfl <;> simp [readChar, readEscape, hmarks]
  · next hmark =>
      split
      · next hcontrol =>
          simp [readChar, readEscape, readCodePoint_control digits hcontrol]
      · next hplain =>
          simp [readChar, readPlain, (not_or.mp hmark).2, isPrintable_of_not_isControl hplain]

/-- No written character begins with a quotation mark. -/
theorem exists_cons_escape (c : Char) : ∃ d text, escape digits c = d :: text ∧ d ≠ '"' := by
  unfold escape
  split
  · exact ⟨'\\', _, rfl, by decide⟩
  · next hmark =>
      split
      · exact ⟨'\\', _, rfl, by decide⟩
      · exact ⟨c, _, rfl, (not_or.mp hmark).1⟩

/-- A text is read back from its written form when it is read as a key. -/
theorem readKey_write (s : String) (rest : List Char) :
    readKey (write digits s ++ rest) = some (s, rest) := by
  have hclose : ∀ c ∈ s.toList, ∀ r, Reader.char '"' (escape digits c ++ r) = none := by
    intro c _ r
    obtain ⟨d, text, hescape, hd⟩ := exists_cons_escape digits c
    simp [hescape, Reader.char, hd]
  have hne : ∀ c ∈ s.toList, escape digits c ≠ [] := by
    intro c _
    obtain ⟨d, text, hescape, _⟩ := exists_cons_escape digits c
    simp [hescape]
  have hbody : Reader.untilClosed (Reader.char '"') readChar
      (s.toList.flatMap (escape digits) ++ '"' :: rest) = some ((s.toList, ()), rest) :=
    Reader.untilClosed_flatMap s.toList (fun c _ r => readChar_escape digits c r) hclose hne
      (by simp) (by simp)
  simp [readKey, write, readLine, Reader.map, hbody, String.ofList_toList]

/-- Not even the empty text begins with three quotation marks, unless a mark follows it. -/
theorem word_write (s : String) {rest : List Char} (hrest : rest.head? ≠ some '"') :
    Reader.word ['"', '"', '"'] (write digits s ++ rest) = none := by
  cases hs : s.toList with
  | nil =>
      cases rest with
      | nil => simp [write, hs, Reader.word]
      | cons d rest =>
          have hd : d ≠ '"' := by simpa using hrest
          simp [write, hs, Reader.word, hd]
  | cons c cs =>
      obtain ⟨d, text, hescape, hd⟩ := exists_cons_escape digits c
      simp [write, hs, hescape, Reader.word, hd]

/-- A text is read back from its written form, unless a mark follows it. -/
theorem read_write (s : String) {rest : List Char} (hrest : rest.head? ≠ some '"') :
    read (write digits s ++ rest) = some (s, rest) := by
  have hkey := readKey_write digits s rest
  have hword := word_write digits s hrest
  rw [write, List.cons_append] at hkey hword ⊢
  have hother : ∀ text, Reader.word ['\x27', '\x27', '\x27'] ('"' :: text) = none := by
    intro text
    simp [Reader.word]
  simp only [read, hword, hother, hkey]

end Toml.Quoted

end ChatIntake
