import ChatIntake.Json.Compact
import ChatIntake.Tool.Call
import ChatIntake.Tool.Result

/-!
# Items

What a conversation amounts to, item by item: turns of the user and the assistant,
tool calls, and tool results. An item has a JSON value, and a text of its own.
-/

namespace ChatIntake

/-- The kinds of items. -/
inductive ItemKind where
  | turn
  | call
  | result
deriving DecidableEq

/-- An item of a conversation. -/
inductive Item where
  | turn (fields : Json.Fields)
  | call (call : ToolCall)
  | result (result : ToolResult)
deriving DecidableEq

namespace Item

/-- The kind of an item. -/
def kind : Item → ItemKind
  | turn _ => .turn
  | call _ => .call
  | result _ => .result

/-- The JSON value of an item. -/
def toJson : Item → Json
  | turn fields => .object fields
  | call c => .object [
      ("type", .string "function_call"),
      ("call_id", .string c.id),
      ("name", .string c.name),
      ("arguments", .string c.arguments)]
  | result r => .object [
      ("type", .string "function_call_output"),
      ("call_id", .string r.callId),
      ("output", .string r.output)]

/-- A field with text, as it stands within a written item. -/
def writeField (key value : String) : List Char :=
  Json.Quoted.write key ++ ':' :: Json.Quoted.write value

/-- The text of an item, written field by field. -/
def write : Item → List Char
  | turn fields => Json.write (.object fields)
  | call c =>
    '{' :: (writeField "type" "function_call" ++ ',' :: (writeField "call_id" c.id ++
      ',' :: (writeField "name" c.name ++ ',' :: (writeField "arguments" c.arguments ++ ['}']))))
  | result r =>
    '{' :: (writeField "type" "function_call_output" ++ ',' :: (writeField "call_id" r.callId ++
      ',' :: (writeField "output" r.output ++ ['}'])))

/-- The text of an item. -/
def text (item : Item) : String := String.ofList item.write

end Item

end ChatIntake
