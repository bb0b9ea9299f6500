import ChatIntake.Text.Lines
import Mathlib.Data.List.Basic

/-!
# Line breaks in joined texts

Texts that are joined in groups, and the results joined again, are the texts joined
at once. The line breaks of the result are those of the texts themselves and one
between neighbours: none comes before the first text, none after the last, and an
empty text leaves none behind.
-/

namespace ChatIntake.Text

theorem joinLines_singleton (text : String) : joinLines [text] = text := by
  rw [joinLines_cons, joinLines_nil, beside_empty]

/-- Joining the joined groups is joining what the groups hold. -/
theorem joinLines_map_joinLines (groups : List (List String)) :
    joinLines (groups.map joinLines) = joinLines groups.flatten := by
  induction groups with
  | nil => rfl
  | cons group groups ih =>
      calc
        joinLines ((group :: groups).map joinLines) =
            beside (joinLines group) (joinLines (groups.map joinLines)) :=
          joinLines_cons (joinLines group) (groups.map joinLines)
        _ = beside (joinLines group) (joinLines groups.flatten) := by rw [ih]
        _ = joinLines (group :: groups).flatten := (joinLines_append group groups.flatten).symm

/-- The number of line breaks in texts. -/
def breaks (texts : List String) : Nat := (texts.flatMap String.toList).count '\n'

theorem breaks_cons (text : String) (texts : List String) :
    breaks (text :: texts) = breaks [text] + breaks texts := by
  simp only [breaks, List.flatMap_cons, List.flatMap_nil, List.append_nil, List.count_append]

theorem breaks_append (a b : String) : breaks [a ++ b] = breaks [a] + breaks [b] := by
  simp only [breaks, List.flatMap_cons, List.flatMap_nil, List.append_nil, String.toList_append,
    List.count_append]

theorem breaks_intercalate (texts : List String) :
    breaks ["\n".intercalate texts] = breaks texts + (texts.length - 1) := by
  induction texts with
  | nil => rfl
  | cons text texts ih =>
      cases texts with
      | nil => rw [String.intercalate_singleton, List.length_singleton, Nat.sub_self, Nat.add_zero]
      | cons other others =>
          have hbreak : breaks ["\n"] = 1 := by decide
          rw [String.intercalate_cons_cons, breaks_append, breaks_append, ih, hbreak,
            breaks_cons text (other :: others)]
          simp only [List.length_cons]
          omega

theorem head?_intercalate {texts : List String} (hfull : ∀ text ∈ texts, text ≠ "") :
    ("\n".intercalate texts).toList.head? = texts.head?.bind fun text => text.toList.head? := by
  cases texts with
  | nil => rfl
  | cons text texts =>
      have htext : text.toList ≠ [] := by simpa using hfull text List.mem_cons_self
      cases texts with
      | nil => simp
      | cons other others =>
          rw [String.intercalate_cons_cons, String.append_assoc, String.toList_append,
            List.head?_append_of_ne_nil _ htext, List.head?_cons, Option.bind_some]

theorem intercalate_ne_empty {text : String} (htext : text ≠ "") (texts : List String) :
    "\n".intercalate (text :: texts) ≠ "" := by
  cases texts <;> simp [htext]

theorem getLast?_intercalate {texts : List String} (hfull : ∀ text ∈ texts, text ≠ "") :
    ("\n".intercalate texts).toList.getLast? =
      texts.getLast?.bind fun text => text.toList.getLast? := by
  induction texts with
  | nil => rfl
  | cons text texts ih =>
      cases texts with
      | nil => simp
      | cons other others =>
          have hrest := (List.forall_mem_cons.mp hfull).2
          have hlast : ("\n".intercalate (other :: others)).toList ≠ [] := by
            have hne := intercalate_ne_empty (hrest other List.mem_cons_self) others
            rwa [ne_eq, String.toList_eq_nil_iff]
          rw [String.intercalate_cons_cons, String.toList_append,
            List.getLast?_append_of_ne_nil _ hlast, ih hrest, List.getLast?_cons_cons]

/-- A text is made from others by one line break between neighbours, and by nothing else. -/
structure JoinedFrom (texts : List String) (joined : String) : Prop where
  eq_intercalate : joined = "\n".intercalate texts
  /-- Its line breaks are those of the texts, and one less than there are texts. -/
  breaks_eq : breaks [joined] = breaks texts + (texts.length - 1)
  /-- It begins as the first text does. -/
  head?_eq : joined.toList.head? = texts.head?.bind fun text => text.toList.head?
  /-- It ends as the last text does. -/
  getLast?_eq : joined.toList.getLast? = texts.getLast?.bind fun text => text.toList.getLast?

theorem joinLines_eq_intercalate (texts : List String) :
    joinLines texts = "\n".intercalate (texts.filter fun text => text ≠ "") := by
  rw [joinLines]
  congr 1
  apply List.filter_congr
  intro text _
  by_cases h : text = "" <;> simp [h]

theorem joinedFrom_joinLines (texts : List String) :
    JoinedFrom (texts.filter fun text => text ≠ "") (joinLines texts) := by
  have hfull : ∀ text ∈ texts.filter (fun text => text ≠ ""), text ≠ "" := by
    intro text htext
    simpa using (List.mem_filter.mp htext).2
  rw [joinLines_eq_intercalate]
  constructor
  case eq_intercalate => rfl
  case breaks_eq => exact breaks_intercalate _
  case head?_eq => exact head?_intercalate hfull
  case getLast?_eq => exact getLast?_intercalate hfull

end ChatIntake.Text
