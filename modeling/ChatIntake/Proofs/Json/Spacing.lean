import ChatIntake.Proofs.Json.RoundTrip
import ChatIntake.Text.Blank

/-!
# Compact text has no spaces

White space stands in compact text only within strings. A string reaches from one
quotation mark to the next that no backslash escapes, so the place of a character is told
by the characters before it.
-/

namespace ChatIntake.Json

open ChatIntake.Text Reader

/-- Where a character of a text stands: outside strings, within one, or within one right
after a backslash. -/
inductive Place where
  | outside
  | within
  | escaped

/-- The place after a character. -/
def Place.next : Place → Char → Place
  | outside, c => if c = '"' then within else outside
  | within, c => if c = '"' then outside else if c = '\\' then escaped else within
  | escaped, _ => within

/-- A text that starts at a place has no white space outside its strings. -/
def SpaceFree : Place → List Char → Prop
  | _, [] => True
  | place, c :: rest => (place = .outside → isSpace c = false) ∧ SpaceFree (place.next c) rest

variable {rest : List Char}

theorem spaceFree_outside_cons {c : Char} (hspace : isSpace c = false) (hquote : c ≠ '"')
    (h : SpaceFree .outside rest) : SpaceFree .outside (c :: rest) := by
  refine ⟨fun _ => hspace, ?_⟩
  simpa only [Place.next, if_neg hquote] using h

theorem spaceFree_outside_append {text : List Char}
    (htext : text.all (fun c => !isSpace c && c != '"') = true) (h : SpaceFree .outside rest) :
    SpaceFree .outside (text ++ rest) := by
  induction text with
  | nil => exact h
  | cons c text ih =>
      simp only [List.all_cons, Bool.and_eq_true, Bool.not_eq_true', bne_iff_ne] at htext
      exact spaceFree_outside_cons htext.1.1 htext.1.2 (ih htext.2)

theorem spaceFree_within_cons {c : Char} (hquote : c ≠ '"') (hbackslash : c ≠ '\\')
    (h : SpaceFree .within rest) : SpaceFree .within (c :: rest) := by
  refine ⟨nofun, ?_⟩
  simpa only [Place.next, if_neg hquote, if_neg hbackslash] using h

theorem spaceFree_within_escaped (letter : Char) (h : SpaceFree .within rest) :
    SpaceFree .within ('\\' :: letter :: rest) := by
  have hescaped : Place.within.next '\\' = .escaped := rfl
  refine ⟨nofun, ?_⟩
  rw [hescaped]
  exact ⟨nofun, h⟩

theorem hexChar_ne {d : Nat} (hd : d < 16) : hexChar d ≠ '"' ∧ hexChar d ≠ '\\' := by
  have all : ∀ e ∈ List.range 16, hexChar e ≠ '"' ∧ hexChar e ≠ '\\' := by decide
  exact all d (List.mem_range.mpr hd)

/-- After a written character the text is still within the string. -/
theorem spaceFree_within_escape (c : Char) (h : SpaceFree .within rest) :
    SpaceFree .within (Quoted.escape c ++ rest) := by
  unfold Quoted.escape
  split
  · next letter _ => exact spaceFree_within_escaped letter h
  · next hletter =>
      split
      · next hlow =>
          obtain ⟨hquote, hbackslash⟩ := hexChar_ne (show c.toNat / 16 < 16 by omega)
          obtain ⟨hquote', hbackslash'⟩ := hexChar_ne (Nat.mod_lt c.toNat (show 0 < 16 by omega))
          apply spaceFree_within_escaped
          apply spaceFree_within_cons (by decide) (by decide)
          apply spaceFree_within_cons (by decide) (by decide)
          apply spaceFree_within_cons hquote hbackslash
          exact spaceFree_within_cons hquote' hbackslash' h
      · obtain ⟨hquote, hbackslash⟩ := Quoted.lookup_letters_none hletter
        exact spaceFree_within_cons hquote hbackslash h

theorem spaceFree_quoted (s : String) (h : SpaceFree .outside rest) :
    SpaceFree .outside (Quoted.write s ++ rest) := by
  have hwithin : SpaceFree .within (s.toList.flatMap Quoted.escape ++ '"' :: rest) := by
    induction s.toList with
    | nil => exact ⟨nofun, h⟩
    | cons c cs ih =>
        rw [List.flatMap_cons, List.append_assoc]
        exact spaceFree_within_escape c ih
  rw [Quoted.write, List.cons_append, List.append_assoc]
  exact ⟨fun _ => by decide, hwithin⟩

theorem isSpace_of_isDigit {c : Char} (h : c.isDigit = true) : isSpace c = false := by
  have hrange : 0x30 ≤ c.toNat ∧ c.toNat ≤ 0x39 := by
    simpa [Char.isDigit, UInt32.le_iff_toNat_le] using h
  simp only [isSpace, spaceRanges, List.any_cons, List.any_nil, Bool.or_false,
    Bool.or_eq_false_iff, Bool.and_eq_false_iff, decide_eq_false_iff_not]
  omega

theorem spaceFree_whole (value : Int) (h : SpaceFree .outside rest) :
    SpaceFree .outside (Numeral.write (.int value) ++ rest) := by
  have hdigits : SpaceFree .outside (Decimal.digits value.natAbs ++ rest) := by
    apply spaceFree_outside_append _ h
    apply List.all_eq_true.mpr
    intro c hc
    have hdigit := Decimal.isDigit_of_mem_digits value.natAbs c hc
    have hquote : c ≠ '"' := by
      rintro rfl
      exact absurd hdigit (by decide)
    simp only [isSpace_of_isDigit hdigit, bne_iff_ne.mpr hquote, Bool.not_false, Bool.and_self]
  by_cases hneg : value < 0
  · simp only [Numeral.write, if_pos hneg, List.cons_append]
    exact spaceFree_outside_cons (by decide) (by decide) hdigits
  · simpa only [Numeral.write, if_neg hneg] using hdigits

section Rows

variable {α : Type} {write : α → List Char} {close : Char}

theorem spaceFree_rowRest (hspace : isSpace close = false) (hquote : close ≠ '"')
    {values : List α}
    (hvalues : ∀ v ∈ values, ∀ after, SpaceFree .outside after →
      SpaceFree .outside (write v ++ after)) (h : SpaceFree .outside rest) :
    SpaceFree .outside (rowRest close write values ++ rest) := by
  induction values with
  | nil => exact spaceFree_outside_cons hspace hquote h
  | cons value values ih =>
      obtain ⟨hvalue, hlater⟩ := List.forall_mem_cons.mp hvalues
      rw [rowRest_cons, List.cons_append, List.append_assoc]
      exact spaceFree_outside_cons (by decide) (by decide) (hvalue _ (ih hlater))

/-- A row has no spaces outside strings if none of its values has. -/
theorem spaceFree_row (hspace : isSpace close = false) (hquote : close ≠ '"')
    {values : List α}
    (hvalues : ∀ v ∈ values, ∀ after, SpaceFree .outside after →
      SpaceFree .outside (write v ++ after)) (h : SpaceFree .outside rest) :
    SpaceFree .outside (row close write values ++ rest) := by
  cases values with
  | nil => exact spaceFree_outside_cons hspace hquote h
  | cons value values =>
      obtain ⟨hvalue, hlater⟩ := List.forall_mem_cons.mp hvalues
      rw [row, List.append_assoc]
      exact hvalue _ (spaceFree_rowRest hspace hquote hlater h)

end Rows

theorem spaceFree_write {depth : Nat} {value : Json} (hvalue : Restorable depth value)
    (h : SpaceFree .outside rest) : SpaceFree .outside (write value ++ rest) := by
  induction hvalue generalizing rest with
  | null => exact spaceFree_outside_append (by decide) h
  | bool b => cases b <;> exact spaceFree_outside_append (by decide) h
  | whole => exact spaceFree_whole _ h
  | string s => exact spaceFree_quoted s h
  | array _ ih =>
      rw [write_array, List.cons_append]
      apply spaceFree_outside_cons (by decide) (by decide)
      exact spaceFree_row (by decide) (by decide) (fun e he _ => ih e he) h
  | object _ _ ih =>
      rw [write_object, List.cons_append]
      apply spaceFree_outside_cons (by decide) (by decide)
      refine spaceFree_row (by decide) (by decide) (fun field hfield after hafter => ?_) h
      rw [writeField, List.append_assoc, List.cons_append]
      apply spaceFree_quoted
      exact spaceFree_outside_cons (by decide) (by decide) (ih field hfield hafter)

/-- Compact text has white space nowhere but within its strings. -/
theorem spaceFree_compact {depth : Nat} {value : Json} (h : Restorable depth value) :
    SpaceFree .outside value.compact.toList := by
  have hfree : SpaceFree .outside (write value ++ []) := spaceFree_write h trivial
  rwa [List.append_nil, ← String.toList_ofList (l := write value)] at hfree

end ChatIntake.Json
