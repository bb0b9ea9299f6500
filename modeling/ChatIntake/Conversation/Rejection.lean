import ChatIntake.Conversation.Role
import ChatIntake.Decimal.Digits
import ChatIntake.Json.Basic

/-!
# Rejections

Why a conversation is refused. Each rejection names one fault of one message; its
text tells the faults apart, and its response carries that text as a JSON object.
-/

namespace ChatIntake

/-- The fault for which a conversation is refused. An index counts the entries of
an assistant message's tool calls from zero. -/
inductive Rejection where
  /-- A message is not an object. -/
  | notAnObject
  /-- A message has no role, or one that is not a string. -/
  | missingRole
  /-- A message has a role of no known name. -/
  | unknownRole (word : String)
  /-- A system or developer message holds something other than text. -/
  | notText (role : Role)
  /-- A tool message does not say which call it answers. -/
  | missingResultId
  /-- A tool call is not an object. -/
  | callNotAnObject (index : Nat)
  /-- A tool call has no identifier. -/
  | missingCallId (index : Nat)
  /-- A tool call has no function object. -/
  | missingFunction (index : Nat)
  /-- The function of a tool call has no name. -/
  | missingFunctionName (index : Nat)
deriving DecidableEq

namespace Rejection

/-- How messages refer to the tool call of an index. -/
def callAt (index : Nat) : String :=
  "assistant tool_calls[" ++ Decimal.text index ++ "]"

/-- The text of a rejection. -/
def message : Rejection → String
  | notAnObject => "Each message must be an object."
  | missingRole => "Each message must include a string 'role'."
  | unknownRole word => "Unsupported message role: " ++ word
  | notText role => role.text ++ " messages must be text-only."
  | missingResultId => "tool messages must include 'tool_call_id'."
  | callNotAnObject index => callAt index ++ " must be an object."
  | missingCallId index => callAt index ++ " must include a non-empty 'id'."
  | missingFunction index => callAt index ++ " must include a 'function' object."
  | missingFunctionName index => callAt index ++ ".function must include a non-empty 'name'."

/-- The field of the request that every rejection is about. -/
def field : String := "messages"

/-- The kind of error that every rejection is. -/
def category : String := "invalid_request_error"

/-- The status that every rejection is answered with. -/
def status : Nat := 400

/-- The body of the response to a rejection. -/
def response (rejection : Rejection) : Json :=
  .object [("error", .object [
    ("message", .string rejection.message),
    ("type", .string category),
    ("param", .string field),
    ("code", .number (.int status))])]

end Rejection

end ChatIntake
