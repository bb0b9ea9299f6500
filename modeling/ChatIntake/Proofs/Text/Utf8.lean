import ChatIntake.Text.Reader

/-!
# The order of the bytes of a text

Texts are put in order by their code points. UTF-8 keeps that order: the number of
bytes of a character can be told from the first of them, more of them stand for a
greater code point, and within one length the earlier bytes hold the higher digits.
-/

namespace ChatIntake.Text

/-- The bytes of a text in UTF-8. -/
def utf8 (text : String) : List UInt8 := text.toUTF8.data.toList

theorem utf8_eq (text : String) : utf8 text = text.toList.flatMap String.utf8EncodeChar := by
  have hbytes : text.toUTF8 = (text.toList.flatMap String.utf8EncodeChar).toByteArray := by
    rw [← List.utf8Encode, ← String.toByteArray_ofList, String.ofList_toList]
    rfl
  rw [utf8, hbytes, List.data_toByteArray]

/-- A row of bytes comes before another if its first byte does, or if that is the same
and the rest comes before the rest. -/
theorem byte_cons_lt {v w : Nat} {bytes others : List UInt8} (hle : v ≤ w) (hbound : w < 256)
    (hrest : v = w → bytes < others) : UInt8.ofNat v :: bytes < UInt8.ofNat w :: others := by
  rw [List.cons_lt_cons_iff]
  rcases Nat.lt_or_eq_of_le hle with hlt | heq
  · left
    rw [UInt8.lt_iff_toNat_lt, UInt8.toNat_ofNat', UInt8.toNat_ofNat']
    omega
  · exact .inr ⟨congrArg UInt8.ofNat heq, hrest heq⟩

/-- A character before another is written before it, whatever follows either. -/
theorem utf8EncodeChar_append_lt {c d : Char} (hlt : c < d) (bytes others : List UInt8) :
    String.utf8EncodeChar c ++ bytes < String.utf8EncodeChar d ++ others := by
  have hval : c.val.toNat < d.val.toNat := hlt
  have hmax : d.val.toNat ≤ 0x10FFFF := by
    rcases d.valid with hlow | hhigh <;> omega
  simp only [String.utf8EncodeChar]
  generalize c.val.toNat = v at *
  generalize d.val.toNat = w at *
  -- the greater code point does not have the fewer bytes
  repeat' split
  all_goals try omega
  all_goals simp only [List.cons_append, List.nil_append]
  -- one byte after the other; bytes that all agree would make the code points equal
  all_goals repeat refine byte_cons_lt (by omega) (by omega) fun hsame => ?_
  all_goals omega

theorem flatMap_utf8EncodeChar_lt {s t : List Char} (hlt : s < t) :
    s.flatMap String.utf8EncodeChar < t.flatMap String.utf8EncodeChar := by
  induction s generalizing t with
  | nil =>
      cases t with
      | nil => exact absurd hlt (List.not_lt_nil _)
      | cons d t =>
          obtain ⟨byte, bytes, hcode⟩ :=
            List.exists_cons_of_ne_nil (String.utf8EncodeChar_ne_nil (c := d))
          rw [List.flatMap_nil, List.flatMap_cons, hcode]
          exact List.nil_lt_cons _ _
  | cons c s ih =>
      cases t with
      | nil => exact absurd hlt (List.not_lt_nil _)
      | cons d t =>
          rcases List.cons_lt_cons_iff.mp hlt with hfirst | ⟨rfl, hrest⟩
          · exact utf8EncodeChar_append_lt hfirst _ _
          · exact List.append_left_lt (ih hrest)

theorem utf8_lt_of_lt {a b : String} (hlt : a < b) : utf8 a < utf8 b := by
  rw [utf8_eq, utf8_eq]
  exact flatMap_utf8EncodeChar_lt (String.lt_iff.mp hlt)

/-- Texts are in the order of their bytes. -/
theorem utf8_lt_iff {a b : String} : utf8 a < utf8 b ↔ a < b := by
  constructor
  · intro hbytes
    by_cases hle : a ≤ b
    · by_cases hge : b ≤ a
      · obtain rfl := String.le_antisymm hle hge
        exact absurd hbytes (List.lt_irrefl _)
      · exact String.not_le.mp hge
    · exact absurd (utf8_lt_of_lt (String.not_le.mp hle)) (List.lt_asymm hbytes)
  · exact utf8_lt_of_lt

end ChatIntake.Text
