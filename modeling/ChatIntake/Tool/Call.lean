import ChatIntake.Conversation.Rejection
import ChatIntake.Json.Compact

/-!
# Tool calls

A tool call has an identifier, the name of a function and its arguments as text.
Arguments that are not text yet are given as compact JSON, missing ones as the
empty object.
-/

namespace ChatIntake

/-- A call of a function by the assistant. -/
structure ToolCall where
  id : String
  name : String
  arguments : String
deriving DecidableEq

namespace ToolCall

/-- The text of the arguments. -/
def argumentText : Option Json → String
  | none | some .null => "\x7b\x7d"
  | some (.string text) => text
  | some value => value.compact

/-- Read the call at an index. -/
def read (index : Nat) (value : Json) : Except Rejection ToolCall :=
  match value.fields? with
  | none => .error (.callNotAnObject index)
  | some call =>
    match call.fullText? "id" with
    | none => .error (.missingCallId index)
    | some id =>
      match (call.get? "function").bind Json.fields? with
      | none => .error (.missingFunction index)
      | some function =>
        match function.fullText? "name" with
        | none => .error (.missingFunctionName index)
        | some name => .ok ⟨id, name, argumentText (function.get? "arguments")⟩

/-- Read calls whose indices start at `index`; the first that cannot be read decides. -/
def readFrom (index : Nat) : List Json → Except Rejection (List ToolCall)
  | [] => .ok []
  | value :: values =>
    match read index value with
    | .error rejection => .error rejection
    | .ok call =>
      match readFrom (index + 1) values with
      | .error rejection => .error rejection
      | .ok calls => .ok (call :: calls)

/-- The calls listed by a message; anything but a list lists none. -/
def entries (message : Json.Fields) : List Json :=
  match message.get? "tool_calls" with
  | some (.array entries) => entries
  | _ => []

end ToolCall

end ChatIntake
