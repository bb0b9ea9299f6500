import ChatIntake.Content.Part
import ChatIntake.Text.Blank

/-!
# Bodies

A body is what a message says. In canonical form a string is a list of one text
part, and every part that can be read is written in its own canonical form. A
body is substantial if it holds anything besides blank text.
-/

namespace ChatIntake.Body

/-- The canonical form of an element; one that cannot be read is kept. -/
def canonicalPart (settings : Settings) (element : Json) : Json :=
  ((Part.read? element).map (Part.write settings)).getD element

/-- The canonical form of a body. -/
def canonical (settings : Settings) : Json → Json
  | .string s => .array [Part.write settings (.text s)]
  | .array elements => .array (elements.map (canonicalPart settings))
  | body => canonicalPart settings body

/-- The fields of a message with its body in canonical form. -/
def canonicalTurn (settings : Settings) (fields : Json.Fields) : Json.Fields :=
  fields.mapAt "content" (canonical settings)

/-- Whether an element of a list counts: its text does, or it has no text. -/
def countsInList : Json → Bool
  | .string text => !Text.isBlank text
  | .object part =>
    match Keyed.get? part "text" with
    | some (.string text) => !Text.isBlank text
    | none | some .null => !part.isEmpty
    | some _ => false
  | _ => true

/-- Whether a body is worth an item of its own. -/
def isSubstantial : Option Json → Bool
  | none | some .null | some (.bool _) | some (.number _) => false
  | some (.string text) => !Text.isBlank text
  | some (.array elements) => elements.any countsInList
  | some (.object part) =>
    match Json.Fields.text? part "text" with
    | some text => !Text.isBlank text
    | none => !part.isEmpty

end ChatIntake.Body
