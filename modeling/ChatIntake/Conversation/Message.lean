import ChatIntake.Conversation.Rejection

/-!
# Messages

A message is a JSON object with the name of a role. Whether it is an object is
settled first, then whether it names a role at all, then whether the role is known.
-/

namespace ChatIntake

/-- A message with a known role, and all its fields. -/
structure Message where
  role : Role
  fields : Json.Fields

namespace Message

/-- Read a message. -/
def read (value : Json) : Except Rejection Message :=
  match value.fields? with
  | none => .error .notAnObject
  | some fields =>
    match fields.text? "role" with
    | none => .error .missingRole
    | some word =>
      match Role.ofText? word with
      | none => .error (.unknownRole word)
      | some role => .ok ⟨role, fields⟩

/-- What a message says, if it has that field. -/
def body? (message : Message) : Option Json := message.fields.get? "content"

end Message

end ChatIntake
