/-!
# Blank texts

The characters with the Unicode property `White_Space`, and the texts made of
nothing else. A text is blank exactly when every one of its characters is a space.
-/

namespace ChatIntake.Text

/-- The first and last code points of the ranges that have the property `White_Space`. -/
def spaceRanges : List (Nat × Nat) :=
  [(0x09, 0x0D), (0x20, 0x20), (0x85, 0x85), (0xA0, 0xA0), (0x1680, 0x1680), (0x2000, 0x200A),
    (0x2028, 0x2029), (0x202F, 0x202F), (0x205F, 0x205F), (0x3000, 0x3000)]

/-- Whether a character has the property `White_Space`. -/
def isSpace (c : Char) : Bool :=
  spaceRanges.any fun range => range.1 ≤ c.toNat && c.toNat ≤ range.2

/-- The property covers twenty-five code points. -/
example : (spaceRanges.map fun range => range.2 + 1 - range.1).sum = 25 := rfl

/-- Whether a text has no character but spaces; the empty text is blank. -/
def isBlank (text : String) : Bool :=
  text.toList.all isSpace

theorem isBlank_iff (text : String) :
    isBlank text = true ↔ ∀ c ∈ text.toList, isSpace c = true := by
  simp [isBlank]

end ChatIntake.Text
