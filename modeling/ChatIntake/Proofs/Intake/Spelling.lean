import ChatIntake.Proofs.Content.Spelling
import ChatIntake.Proofs.Intake.Dependence

/-!
# Messages spelled another way

A conversation may be rewritten at any number of places where a text stands, each text
spelled another way there. It is taken in as before, or refused for the same fault,
whatever the roles of the messages rewritten.
-/

namespace ChatIntake

namespace Message

/-- A field spelled another way: only the body of a message may be. -/
inductive RespelledField : String × Json → String × Json → Prop
  | same (field : String × Json) : RespelledField field field
  | content {body other : Json} (hbody : Body.Respelled body other) :
      RespelledField ("content", body) ("content", other)

/-- A message spelled another way: an object may be, field by field. -/
inductive Respelled : Json → Json → Prop
  | same (value : Json) : Respelled value value
  | object {fields others : Json.Fields} (hfields : List.Forall₂ RespelledField fields others) :
      Respelled (.object fields) (.object others)

variable {fields others : Json.Fields}

/-- Every field but the body is found as before. -/
theorem get?_respelled_of_ne (h : List.Forall₂ RespelledField fields others) {key : String}
    (hkey : key ≠ "content") : fields.get? key = others.get? key := by
  induction h with
  | nil => rfl
  | cons hfield _ ih =>
      cases hfield with
      | same => simp only [Keyed.get?, ih]
      | content => simp only [Keyed.get?, if_neg hkey.symm, ih]

/-- The body is found as before, or spelled another way. -/
theorem get?_content_respelled (h : List.Forall₂ RespelledField fields others) :
    Option.Rel Body.Respelled (fields.get? "content") (others.get? "content") := by
  induction h with
  | nil => exact .none
  | cons hfield _ ih =>
      cases hfield with
      | same field =>
          simp only [Keyed.get?]
          split
          · exact .some (.same _)
          · exact ih
      | content hbody => exact .some hbody

theorem canonicalTurn_respelled (settings : Settings)
    (h : List.Forall₂ RespelledField fields others) :
    Body.canonicalTurn settings fields = Body.canonicalTurn settings others := by
  apply Listing.map_eq_map_iff_forall₂.mpr
  apply h.imp
  intro field other hfield
  cases hfield with
  | same => rfl
  | content hbody => simp only [if_true, Body.canonical_respelled hbody]

theorem fullText?_respelled_of_ne (h : List.Forall₂ RespelledField fields others) {key : String}
    (hkey : key ≠ "content") : fields.fullText? key = others.fullText? key := by
  simp only [Json.Fields.fullText?, Json.Fields.text?, get?_respelled_of_ne h hkey]

theorem callId?_respelled (h : List.Forall₂ RespelledField fields others) :
    ToolResult.callId? fields = ToolResult.callId? others := by
  have hkeys : ∀ key ∈ ToolResult.idFields, fields.fullText? key = others.fullText? key := by
    intro key hkey
    apply fullText?_respelled_of_ne h
    rintro rfl
    exact absurd hkey (by decide)
  simp only [ToolResult.idFields, List.forall_mem_cons] at hkeys
  simp only [ToolResult.callId?, ToolResult.idFields, List.findSome?_cons, List.findSome?_nil,
    hkeys]

theorem entries_respelled (h : List.Forall₂ RespelledField fields others) :
    ToolCall.entries fields = ToolCall.entries others := by
  simp only [ToolCall.entries, get?_respelled_of_ne h (show "tool_calls" ≠ "content" by decide)]

/-- A message is read as before when its body is spelled another way. -/
theorem read_respelled (settings : Settings) {value other : Json} (h : Respelled value other) :
    Contribution.read settings value = Contribution.read settings other := by
  cases h with
  | same => rfl
  | object hfields =>
      have hbody := get?_content_respelled hfields
      apply Contribution.read_congr
      · exact get?_respelled_of_ne hfields (by decide)
      · intro role _
        apply Contribution.ofMessage_congr
        · exact fun _ => canonicalTurn_respelled settings hfields
        · exact entries_respelled hfields
        · exact Body.leaves?_respelled hbody
        · exact callId?_respelled hfields
        · exact Body.answerText_respelled hbody

end Message

/-- Spelling texts another way, at any places of a conversation, changes nothing of its
intake: neither the fault for which it is refused, nor its instructions and items. -/
theorem takeIn_respelled {messages others : List Json}
    (h : List.Forall₂ Message.Respelled messages others) (settings : Settings)
    (existing : String) :
    takeIn settings existing messages = takeIn settings existing others :=
  takeIn_congr existing (h.imp fun _ _ => Message.read_respelled settings)

/-- Texts as strings in three roles, and an assistant's list with a blank one. -/
def plainlySpelled : List Json := [
  .object [("role", .string "system"), ("content", .array [.string "a", .string ""])],
  .object [("content", .string "q"), ("role", .string "user")],
  .object [("role", .string "assistant"), ("content", .array [.string " "])],
  .object [("role", .string "tool"), ("call_id", .string "c"), ("content", .string "")]]

/-- The same conversation with each text spelled another way. -/
def otherwiseSpelled : List Json := [
  .object [("role", .string "system"), ("content", .array [
    .object [("text", .string "a"), ("type", .null)], .string ""])],
  .object [("content", .array [.string "q"]), ("role", .string "user")],
  .object [("role", .string "assistant"), ("content", .array [
    .object [("type", .string "text"), ("cache", .bool true), ("text", .string " ")]])],
  .object [("role", .string "tool"), ("call_id", .string "c"), ("content", .array [.string ""])]]

theorem takeIn_otherwiseSpelled :
    List.Forall₂ Message.Respelled plainlySpelled otherwiseSpelled ∧
      takeIn {} "e" plainlySpelled = takeIn {} "e" otherwiseSpelled := by
  have hspelled : List.Forall₂ Message.Respelled plainlySpelled otherwiseSpelled := by
    refine .cons ?system (.cons ?user (.cons ?assistant (.cons ?tool .nil)))
    case system =>
      have htext : Guidance.Leaf (.object [("text", .string "a"), ("type", .null)]) "a" :=
        .object (by decide) rfl
      exact .object (.cons (.same _) (.cons
        (.content (.elements (.cons (.leaf htext) (.cons (.same _) .nil)))) .nil))
    case user =>
      exact .object (.cons (.content (.listed (.string "q"))) (.cons (.same _) .nil))
    case assistant =>
      have htext : Guidance.Leaf (.object [("type", .string "text"), ("cache", .bool true),
          ("text", .string " ")]) " " :=
        .object (by decide) rfl
      exact .object (.cons (.same _) (.cons
        (.content (.elements (.cons (.leaf htext) .nil))) .nil))
    case tool =>
      exact .object (.cons (.same _) (.cons (.same _) (.cons
        (.content (.listed (.string ""))) .nil)))
  exact ⟨hspelled, takeIn_respelled hspelled {} "e"⟩

end ChatIntake
