import ChatIntake.Intake

/-!
# Sessions

A conversation that arrives in pieces. A session keeps its settings, the
instructions and the items so far, and the last body put into canonical form. A
step that is refused leaves the session as it was.
-/

namespace ChatIntake

/-- The state of a session. -/
structure Session where
  settings : Settings
  instructions : String
  items : List Item := []
  body : Json := .null
deriving DecidableEq

namespace Session

/-- Take in further messages after those taken in already. -/
def takeIn (session : Session) (messages : List Json) : Except Rejection (Intake × Session) :=
  match ChatIntake.takeIn session.settings session.instructions messages with
  | .error rejection => .error rejection
  | .ok intake => .ok (intake,
      { session with
        instructions := intake.instructions
        items := session.items ++ intake.items })

/-- Take in the values of the items as messages, in place of the items. -/
def retake (session : Session) : Except Rejection Session :=
  match ChatIntake.takeIn session.settings session.instructions
      (session.items.map Item.toJson) with
  | .error rejection => .error rejection
  | .ok intake => .ok { session with
      instructions := intake.instructions
      items := intake.items }

/-- Keep only the items of one kind. -/
def keep (session : Session) (kind : ItemKind) : Session :=
  { session with items := session.items.filter fun item => item.kind = kind }

/-- Put a body into canonical form, and remember it. -/
def canonicalize (session : Session) (body : Json) : Session :=
  { session with body := Body.canonical session.settings body }

/-- Put the body remembered into canonical form once more. -/
def recanonicalize (session : Session) : Session :=
  session.canonicalize session.body

/-- Change the settings for the steps to come. -/
def configure (session : Session) (settings : Settings) : Session :=
  { session with settings }

end Session

end ChatIntake
