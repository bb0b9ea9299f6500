import ChatIntake.Proofs.Content.Canonical
import ChatIntake.Proofs.Conversation.Guidance
import ChatIntake.Proofs.Listing
import ChatIntake.Proofs.Text.Lines
import ChatIntake.Tool.Result

/-!
# Spellings of a text

A text may be spelled as a string, as a plain part, or as a list with one of these.
Three readers meet it: the canonical form of a body, the leaves of guidance and the
answer of a tool. Each of them makes the same of every spelling.
-/

namespace ChatIntake.Body

open Guidance (Leaf)

/-- An element spelled another way: a string may give way to any leaf with its text. -/
inductive RespelledElement : Json → Json → Prop
  | same (element : Json) : RespelledElement element element
  | leaf {s : String} {other : Json} (hleaf : Leaf other s) : RespelledElement (.string s) other

/-- A body spelled another way: a string as a list of one leaf, or a list by its elements. -/
inductive Respelled : Json → Json → Prop
  | same (body : Json) : Respelled body body
  | listed {s : String} {other : Json} (hleaf : Leaf other s) :
      Respelled (.string s) (.array [other])
  | elements {elements others : List Json}
      (helements : List.Forall₂ RespelledElement elements others) :
      Respelled (.array elements) (.array others)

section Canonical

variable {settings : Settings}

/-- A leaf is a part of the grammar, namely its text. -/
theorem denotes_of_leaf {element : Json} {s : String} (h : Leaf element s) :
    Part.Denotes element (.text s) := by
  cases h with
  | string => exact .string s
  | @object part _ htype htext =>
      have htag : Part.TaggedAs part "text" := by
        simp only [Guidance.plainTypes, List.mem_cons, List.not_mem_nil, or_false] at htype
        rcases htype with htype | htype | htype
        · exact .inferred (by simp [Part.untyped, htype]) (by simp [htext])
        · exact .inferred (by simp [Part.untyped, htype]) (by simp [htext])
        · exact .typed htype (by decide)
      exact .text (.inl htag) htext

theorem canonicalPart_of_leaf {element : Json} {s : String} (h : Leaf element s) :
    canonicalPart settings element = Part.write settings (.text s) :=
  canonicalPart_of_denotes (denotes_of_leaf h)

theorem canonicalPart_respelled {element other : Json} (h : RespelledElement element other) :
    canonicalPart settings element = canonicalPart settings other := by
  cases h with
  | same => rfl
  | leaf hleaf => rw [canonicalPart_of_leaf hleaf, canonicalPart_of_leaf (.string _)]

theorem canonical_respelled {body other : Json} (h : Respelled body other) :
    canonical settings body = canonical settings other := by
  cases h with
  | same => rfl
  | listed hleaf => simp only [canonical, List.map_cons, List.map_nil, canonicalPart_of_leaf hleaf]
  | @elements elements others helements =>
      have hmap : elements.map (canonicalPart settings) = others.map (canonicalPart settings) :=
        Listing.map_eq_map_iff_forall₂.mpr (helements.imp fun _ _ => canonicalPart_respelled)
      simp only [canonical, hmap]

end Canonical

section Guidance

theorem leaf?_respelled {element other : Json} (h : RespelledElement element other) :
    Guidance.leaf? element = Guidance.leaf? other := by
  cases h with
  | same => rfl
  | leaf hleaf =>
      rw [Guidance.leaf?_eq_some_iff.mpr hleaf, Guidance.leaf?_eq_some_iff.mpr (.string _)]

theorem mapM_leaf?_respelled {elements others : List Json}
    (h : List.Forall₂ RespelledElement elements others) :
    elements.mapM Guidance.leaf? = others.mapM Guidance.leaf? := by
  induction h with
  | nil => rfl
  | cons helement _ ih => rw [List.mapM_cons, List.mapM_cons, leaf?_respelled helement, ih]

theorem leaves?_respelled {body? other? : Option Json} (h : Option.Rel Respelled body? other?) :
    Guidance.leaves? body? = Guidance.leaves? other? := by
  cases h with
  | none => rfl
  | some hbody =>
      cases hbody with
      | same => rfl
      | listed hleaf =>
          rw [Guidance.leaves?_eq_some_iff.mpr (.one (.string _)),
            Guidance.leaves?_eq_some_iff.mpr (.list (.cons hleaf .nil))]
      | elements helements => exact mapM_leaf?_respelled helements

end Guidance

section Answer

theorem text?_of_leaf {element : Json} {s : String} (h : Leaf element s) :
    ToolResult.text? element = some s := by
  cases h with
  | string => rfl
  | object _ htext => exact Json.Fields.text?_eq_some_iff.mpr htext

theorem text?_respelled {element other : Json} (h : RespelledElement element other) :
    ToolResult.text? element = ToolResult.text? other := by
  cases h with
  | same => rfl
  | leaf hleaf => rw [text?_of_leaf hleaf, text?_of_leaf (.string _)]

theorem texts_respelled {elements others : List Json}
    (h : List.Forall₂ RespelledElement elements others) :
    elements.filterMap ToolResult.text? = others.filterMap ToolResult.text? := by
  induction h with
  | nil => rfl
  | cons helement _ ih =>
      rw [List.filterMap_cons, List.filterMap_cons, text?_respelled helement, ih]

/-- A list without a text has no string that could be spelled another way. -/
theorem eq_of_texts_eq_nil {elements others : List Json}
    (h : List.Forall₂ RespelledElement elements others)
    (hnone : elements.filterMap ToolResult.text? = []) : elements = others := by
  induction h with
  | nil => rfl
  | cons helement _ ih =>
      cases helement with
      | same element =>
          rw [List.filterMap_eq_nil_iff, List.forall_mem_cons] at hnone
          rw [ih (List.filterMap_eq_nil_iff.mpr hnone.2)]
      | leaf => cases hnone

theorem answerText_respelled {body? other? : Option Json} (h : Option.Rel Respelled body? other?) :
    ToolResult.answerText body? = ToolResult.answerText other? := by
  cases h with
  | none => rfl
  | some hbody =>
      cases hbody with
      | same => rfl
      | listed hleaf =>
          simp [ToolResult.answerText, text?_of_leaf hleaf, Text.joinLines_singleton]
      | @elements elements others helements =>
          -- Without a text the list itself is the answer, so it must not have changed.
          simp only [ToolResult.answerText, texts_respelled helements]
          split
          · next hnone =>
              rw [List.isEmpty_iff, ← texts_respelled helements] at hnone
              rw [eq_of_texts_eq_nil helements hnone]
          · rfl

end Answer

end ChatIntake.Body
