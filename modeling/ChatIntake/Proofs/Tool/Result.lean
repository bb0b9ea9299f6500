import ChatIntake.Tool.Result
import Mathlib.Logic.Basic

/-!
# Which call a result answers

Three fields may hold the identifier of the call that a tool message answers. The first
of them with a text that is not empty does; a message with none answers no call.
-/

namespace ChatIntake.ToolResult

/-- The identifier of a result is the first full text under three keys. -/
def Answers (fields : Json.Fields) (id : String) : Prop :=
  fields.FirstFullText ["tool_call_id", "toolCallId", "call_id"] id

theorem callId?_eq_some_iff {fields : Json.Fields} {id : String} :
    callId? fields = some id ↔ Answers fields id :=
  Json.Fields.findSome?_fullText?_eq_some_iff

theorem callId?_eq_none_iff {fields : Json.Fields} :
    callId? fields = none ↔ ∀ key ∈ idFields, ¬ fields.HoldsFullText key := by
  simp only [callId?, List.findSome?_eq_none_iff, Json.Fields.fullText?_eq_none_iff]

theorem exists_callId?_iff {fields : Json.Fields} :
    (∃ id, callId? fields = some id) ↔ ∃ key ∈ idFields, fields.HoldsFullText key := by
  rw [← Option.ne_none_iff_exists', ne_eq, callId?_eq_none_iff]
  simp only [not_forall, not_not, exists_prop]

end ChatIntake.ToolResult
