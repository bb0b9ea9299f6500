import ChatIntake.Conversation.Message
import ChatIntake.Text.Lines

/-!
# Guidance

System and developer messages guide the conversation. They hold nothing but text:
a string, a text part, or a list of both; anything else in them is refused.
-/

namespace ChatIntake.Guidance

/-- Whether the type of a part leaves it a plain text: there is none, or it is `text`. -/
def isPlain : Option Json → Bool
  | none | some .null => true
  | some (.string tag) => tag == "text"
  | some _ => false

/-- The text of a string or of a plain text part. -/
def leaf? : Json → Option String
  | .string text => some text
  | .object part =>
    if isPlain (Keyed.get? part "type") then Json.Fields.text? part "text" else none
  | _ => none

/-- The texts of a body, if it holds nothing else. -/
def leaves? : Option Json → Option (List String)
  | none | some .null => some []
  | some (.array parts) => parts.mapM leaf?
  | some body => (leaf? body).map fun text => [text]

/-- The text that a system or developer message contributes. -/
def ofMessage (message : Message) : Except Rejection String :=
  match leaves? message.body? with
  | none => .error (.notText message.role)
  | some texts => .ok (Text.joinLines texts)

end ChatIntake.Guidance
