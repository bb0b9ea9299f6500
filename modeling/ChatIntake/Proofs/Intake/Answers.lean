import ChatIntake.Proofs.Content.Mime
import ChatIntake.Proofs.Intake.Encoding
import ChatIntake.Proofs.Text.Lines

/-!
# What a tool answers with

The output of a result by the form of the body that it answers with. A body with a text in
it is answered by its texts, joined line by line, and any other by its compact text. Whether
there is a text is asked before the empty ones are left out, so lists of empty texts are
answered by nothing and lists without texts are not.
-/

namespace ChatIntake

namespace ToolResult

/-- The text that an element tells: that of a string, or of an object of any type. -/
inductive Tells : Json → String → Prop
  | string (s : String) : Tells (.string s) s
  | object {part : Json.Fields} {s : String} (htext : part.get? "text" = some (.string s)) :
      Tells (.object part) s

/-- The texts that elements tell, in the order of the elements. -/
inductive TellAll : List Json → List String → Prop
  | nil : TellAll [] []
  | told {element : Json} {elements : List Json} {s : String} {texts : List String}
      (htold : Tells element s) (hrest : TellAll elements texts) :
      TellAll (element :: elements) (s :: texts)
  | passed {element : Json} {elements : List Json} {texts : List String}
      (hnone : ¬ Textual element) (hrest : TellAll elements texts) :
      TellAll (element :: elements) texts

variable {element : Json} {elements : List Json} {texts : List String}

theorem text?_eq_some_iff {s : String} : text? element = some s ↔ Tells element s := by
  constructor
  · intro h
    cases element with
    | string text =>
        cases h
        exact .string s
    | object part => exact .object (Json.Fields.text?_eq_some_iff.mp h)
    | null | bool | number | array => cases h
  · intro h
    cases h with
    | string => rfl
    | object htext => exact Json.Fields.text?_eq_some_iff.mpr htext

/-- Elements tell one list of texts. -/
theorem TellAll.eq_filterMap (h : TellAll elements texts) : texts = elements.filterMap text? := by
  induction h with
  | nil => rfl
  | told htold _ ih => rw [List.filterMap_cons_some (text?_eq_some_iff.mpr htold), ← ih]
  | passed hnone _ ih =>
      rw [List.filterMap_cons_none (text?_eq_none_of_not_textual hnone), ← ih]

theorem TellAll.mem_iff (h : TellAll elements texts) {s : String} :
    s ∈ texts ↔ ∃ e ∈ elements, Tells e s := by
  rw [h.eq_filterMap]
  simp only [List.mem_filterMap, text?_eq_some_iff]

section Silence

end Silence

end ToolResult

end ChatIntake
