/-!
# Joining texts line by line

Texts are joined with a line break between neighbours, and empty texts take no
part: they leave no break behind. Joining in groups and joining the results is
the same as joining everything at once.
-/

namespace ChatIntake.Text

/-- The non-empty texts, in order, with one line break between neighbours. -/
def joinLines (texts : List String) : String :=
  "\n".intercalate (texts.filter fun text => !text.isEmpty)

/-- Two texts with a line break between them, unless one of them is empty. -/
def beside (a b : String) : String :=
  if a = "" then b else if b = "" then a else a ++ "\n" ++ b

@[simp] theorem beside_empty (a : String) : beside a "" = a := by
  simp [beside, eq_comm]

@[simp] theorem empty_beside (b : String) : beside "" b = b := rfl

theorem beside_assoc (a b c : String) : beside (beside a b) c = beside a (beside b c) := by
  by_cases ha : a = ""
  · simp [ha]
  · by_cases hb : b = ""
    · simp [hb]
    · by_cases hc : c = ""
      · simp [hc]
      · simp [beside, ha, hb, hc, String.append_assoc]

@[simp] theorem joinLines_nil : joinLines [] = "" := rfl

theorem joinLines_cons (text : String) (texts : List String) :
    joinLines (text :: texts) = beside text (joinLines texts) := by
  by_cases h : text = ""
  · simp [joinLines, h]
  · simp only [joinLines, List.filter_cons, String.isEmpty_eq_false_iff.mpr h, Bool.not_false,
      if_true]
    generalize kept : texts.filter (fun text => !text.isEmpty) = others
    cases others with
    | nil => simp
    | cons other others =>
      have otherFull : other ≠ "" := by
        have : other ∈ texts.filter (fun text => !text.isEmpty) := by simp [kept]
        simpa using (List.mem_filter.mp this).2
      have joined : "\n".intercalate (other :: others) ≠ "" := by
        cases others <;> simp [otherFull]
      simp [beside, h, joined]

/-- Empty texts join to the empty text, however many they are. -/
theorem joinLines_of_forall_empty {texts : List String} (h : ∀ text ∈ texts, text = "") :
    joinLines texts = "" := by
  induction texts with
  | nil => rfl
  | cons text texts ih =>
    obtain ⟨first, rest⟩ := List.forall_mem_cons.mp h
    rw [joinLines_cons, first, ih rest, beside_empty]

theorem joinLines_append (texts others : List String) :
    joinLines (texts ++ others) = beside (joinLines texts) (joinLines others) := by
  induction texts with
  | nil => simp
  | cons text texts ih => simp [joinLines_cons, ih, beside_assoc]

end ChatIntake.Text
