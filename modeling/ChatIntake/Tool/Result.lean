import ChatIntake.Conversation.Message
import ChatIntake.Json.Compact
import ChatIntake.Text.Lines

/-!
# Tool results

A tool message answers one call with one text: the texts it holds, line by line,
or its compact JSON if it holds no text.
-/

namespace ChatIntake

/-- The answer to a tool call. -/
structure ToolResult where
  callId : String
  output : String
deriving DecidableEq

namespace ToolResult

/-- The text of a string or of an object of any type that has one. -/
def text? : Json → Option String
  | .string text => some text
  | .object part => Json.Fields.text? part "text"
  | _ => none

/-- The one text that a body amounts to. -/
def answerText : Option Json → String
  | none | some .null => ""
  | some (.string text) => text
  | some (.array elements) =>
    let texts := elements.filterMap text?
    if texts.isEmpty then (Json.array elements).compact else Text.joinLines texts
  | some body => (text? body).getD body.compact

/-- The fields that may name the call answered, the first that does winning. -/
def idFields : List String := ["tool_call_id", "toolCallId", "call_id"]

/-- The identifier of the call that a message answers. -/
def callId? (message : Json.Fields) : Option String :=
  idFields.findSome? message.fullText?

/-- Read the result in a tool message. -/
def ofMessage (message : Message) : Except Rejection ToolResult :=
  match callId? message.fields with
  | none => .error .missingResultId
  | some id => .ok ⟨id, answerText message.body?⟩

end ToolResult

end ChatIntake
