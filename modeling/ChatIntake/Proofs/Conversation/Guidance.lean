import ChatIntake.Conversation.Guidance
import Mathlib.Data.List.Forall2

/-!
# The leaves of guidance

Which bodies hold nothing but text, and which texts they hold. A system or
developer message is refused exactly if its body is none of them.
-/

namespace ChatIntake.Guidance

/-- The values under `type` that leave a part a plain text. -/
def plainTypes : List (Option Json) := [none, some .null, some (.string "text")]

/-- A leaf is a string, or an object of plain type with a text. -/
inductive Leaf : Json → String → Prop
  | string (s : String) : Leaf (.string s) s
  | object {part : Json.Fields} {s : String} (htype : part.get? "type" ∈ plainTypes)
      (htext : part.get? "text" = some (.string s)) : Leaf (.object part) s

/-- The leaves of a body that holds nothing else: none if there is no body, one if
the body is a leaf, and one for each element of a list. -/
inductive Leaves : Option Json → List String → Prop
  | missing : Leaves none []
  | null : Leaves (some .null) []
  | one {body : Json} {s : String} (hbody : Leaf body s) : Leaves (some body) [s]
  | list {elements : List Json} {texts : List String}
      (helements : List.Forall₂ Leaf elements texts) : Leaves (some (.array elements)) texts

/-- A body is text-only if it has no part but leaves. -/
def TextOnly (body? : Option Json) : Prop := ∃ texts, Leaves body? texts

theorem isPlain_iff {type? : Option Json} : isPlain type? = true ↔ type? ∈ plainTypes := by
  cases type? with
  | none => simp [isPlain, plainTypes]
  | some type => cases type <;> simp [isPlain, plainTypes]

theorem leaf?_eq_some_iff {body : Json} {s : String} : leaf? body = some s ↔ Leaf body s := by
  constructor
  · intro h
    cases body with
    | string t =>
        cases h
        exact .string _
    | object part =>
        obtain ⟨htype, htext⟩ := Option.ite_none_right_eq_some.mp h
        exact .object (isPlain_iff.mp htype) (Json.Fields.text?_eq_some_iff.mp htext)
    | null | bool | number | array => cases h
  · intro h
    cases h with
    | string => rfl
    | object htype htext =>
        simp [leaf?, isPlain_iff.mpr htype, Json.Fields.text?_eq_some_iff.mpr htext]

theorem mapM_leaf?_eq_some_iff {elements : List Json} {texts : List String} :
    elements.mapM leaf? = some texts ↔ List.Forall₂ Leaf elements texts := by
  induction elements generalizing texts with
  | nil => cases texts <;> simp
  | cons element elements ih =>
      rw [List.mapM_cons, List.forall₂_cons_left_iff]
      simp only [Option.bind_eq_bind, Option.bind_eq_some_iff, leaf?_eq_some_iff, ih]
      constructor
      · rintro ⟨s, hs, others, hothers, h⟩
        exact ⟨s, others, hs, hothers, (Option.some.inj h).symm⟩
      · rintro ⟨s, others, hs, hothers, rfl⟩
        exact ⟨s, hs, others, hothers, rfl⟩

/-- The texts found in a body are its leaves. -/
theorem leaves?_eq_some_iff {body? : Option Json} {texts : List String} :
    leaves? body? = some texts ↔ Leaves body? texts := by
  constructor
  · intro h
    simp only [leaves?] at h
    split at h
    · cases h
      exact .missing
    · cases h
      exact .null
    · exact .list (mapM_leaf?_eq_some_iff.mp h)
    · obtain ⟨s, hs, rfl⟩ := Option.map_eq_some_iff.mp h
      exact .one (leaf?_eq_some_iff.mp hs)
  · intro h
    cases h with
    | missing | null => rfl
    | list helements => exact mapM_leaf?_eq_some_iff.mpr helements
    | one hbody =>
        have hleaf := leaf?_eq_some_iff.mpr hbody
        cases hbody <;> simp [leaves?, hleaf]

theorem leaves?_eq_none_iff {body? : Option Json} :
    leaves? body? = none ↔ ¬ TextOnly body? := by
  simp only [TextOnly, ← leaves?_eq_some_iff]
  exact Option.eq_none_iff_forall_ne_some.trans not_exists.symm

theorem ofMessage_eq_ok_iff {message : Message} {guidance : String} :
    ofMessage message = .ok guidance ↔
      ∃ texts, Leaves message.body? texts ∧ guidance = Text.joinLines texts := by
  simp only [ofMessage, ← leaves?_eq_some_iff]
  cases leaves? message.body? with
  | none => simp
  | some texts => simp [eq_comm]

theorem ofMessage_eq_error_iff {message : Message} {rejection : Rejection} :
    ofMessage message = .error rejection ↔
      ¬ TextOnly message.body? ∧ rejection = .notText message.role := by
  simp only [ofMessage, ← leaves?_eq_none_iff]
  cases leaves? message.body? with
  | none => simp [eq_comm]
  | some texts => simp

end ChatIntake.Guidance
