import ChatIntake.Content.Attachment

/-!
# Parts

The parts of a body that have a canonical form: texts, images, audio and files in
the forms that clients send them in. A part in canonical form already, and one
of no known shape, is not read, and so stays as it is.
-/

namespace ChatIntake

/-- A part that is written in canonical form. -/
inductive Part where
  | text (text : String)
  | image (url : String) (detail? : Option String)
  | audio (data format : String)
  | file (attachment : Attachment)
deriving DecidableEq

namespace Part

/-- The tag of a part. A part without a type, or with a `null`, `false` or empty one,
is tagged `text` if it has that field. -/
def tag? (part : Json.Fields) : Option String :=
  let inferred := if (part.get? "text").isSome then some "text" else none
  match part.get? "type" with
  | none | some .null | some (.bool false) => inferred
  | some (.string tag) => if tag.isEmpty then inferred else some tag
  | some _ => none

/-- Read an image from its link, or from an object with the link. -/
def image? : Option Json → Option Part
  | some (.string url) => some (image url none)
  | some (.object fields) =>
    (Json.Fields.text? fields "url").map fun url => image url (Json.Fields.text? fields "detail")
  | _ => none

/-- Read audio from an object with its data and its format. -/
def audio? (value? : Option Json) : Option Part :=
  match value?.bind Json.fields? with
  | none => none
  | some fields =>
    match fields.text? "data", fields.text? "format" with
    | some data, some format => some (audio data format)
    | _, _ => none

/-- Read a part of the given tag. -/
def ofTag? (part : Json.Fields) (tag : String) : Option Part :=
  if tag = "text" ∨ tag = "input_text" then (part.text? "text").map text
  else if tag = "image_url" then image? (part.get? "image_url")
  else if tag = "input_audio" then audio? (part.get? "input_audio")
  else if tag = "file" then some (file (.read (part.get? "file")))
  else none

/-- Read a part: a string, or an object with a tag. -/
def read? : Json → Option Part
  | .string s => some (text s)
  | .object fields => (tag? fields).bind (ofTag? fields)
  | _ => none

/-- A part in canonical form: its tag and the fields that go with it. -/
def tagged (tag : String) (fields : Json.Fields) : Json :=
  .object (("type", .string tag) :: fields)

/-- The canonical form of a part. -/
def write (settings : Settings) : Part → Json
  | text s => tagged "input_text" [("text", .string s)]
  | image url none => tagged "input_image" [("image_url", .string url)]
  | image url (some detail) =>
    tagged "input_image" [("image_url", .string url), ("detail", .string detail)]
  | audio data format =>
    tagged "input_file" [("file_url", .string (embeddedLink (settings.audioMime format) data))]
  | file attachment => tagged "input_file" (attachment.fields settings)

end Part

end ChatIntake
