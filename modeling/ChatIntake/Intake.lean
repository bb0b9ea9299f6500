import ChatIntake.Content.Body
import ChatIntake.Conversation.Guidance
import ChatIntake.Item

/-!
# Intake

A conversation is taken in message by message. Each message contributes guidance or
items; the first that cannot be read refuses the whole conversation.
-/

namespace ChatIntake

/-- What one message contributes. -/
structure Contribution where
  guidance : String
  items : List Item
deriving DecidableEq

namespace Contribution

/-- The turn of a message, if its body in canonical form is substantial. -/
def assistantTurn (settings : Settings) (fields : Json.Fields) : List Item :=
  let turn := Body.canonicalTurn settings fields
  if Body.isSubstantial (turn.get? "content") then [.turn turn] else []

/-- The contribution of a message. -/
def ofMessage (settings : Settings) (message : Message) : Except Rejection Contribution :=
  match message.role with
  | .system | .developer =>
    match Guidance.ofMessage message with
    | .error rejection => .error rejection
    | .ok text => .ok ⟨text, []⟩
  | .user => .ok ⟨"", [.turn (Body.canonicalTurn settings message.fields)]⟩
  | .assistant =>
    match ToolCall.readFrom 0 (ToolCall.entries message.fields) with
    | .error rejection => .error rejection
    | .ok calls => .ok ⟨"", assistantTurn settings message.fields ++ calls.map .call⟩
  | .tool =>
    match ToolResult.ofMessage message with
    | .error rejection => .error rejection
    | .ok result => .ok ⟨"", [.result result]⟩

/-- Read a message and what it contributes. -/
def read (settings : Settings) (value : Json) : Except Rejection Contribution :=
  match Message.read value with
  | .error rejection => .error rejection
  | .ok message => ofMessage settings message

/-- Read every message in order; the first that cannot be read decides. -/
def readAll (settings : Settings) : List Json → Except Rejection (List Contribution)
  | [] => .ok []
  | value :: values =>
    match read settings value with
    | .error rejection => .error rejection
    | .ok contribution =>
      match readAll settings values with
      | .error rejection => .error rejection
      | .ok contributions => .ok (contribution :: contributions)

end Contribution

/-- A conversation taken in: its guidance as one text, and its items. -/
structure Intake where
  instructions : String
  items : List Item
deriving DecidableEq

namespace Intake

/-- The contributions put together, after the instructions that exist already. -/
def ofContributions (existing : String) (contributions : List Contribution) : Intake where
  instructions := Text.joinLines (existing :: contributions.map Contribution.guidance)
  items := contributions.flatMap Contribution.items

end Intake

/-- Take in a conversation, or refuse it for its first fault. -/
def takeIn (settings : Settings) (existing : String) (messages : List Json) :
    Except Rejection Intake :=
  match Contribution.readAll settings messages with
  | .error rejection => .error rejection
  | .ok contributions => .ok (.ofContributions existing contributions)

end ChatIntake
