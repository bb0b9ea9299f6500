import ChatIntake.Json.Basic
import ChatIntake.Settings.Basic

/-!
# Attachments

A file that comes with a message, and how its bytes are found. An identifier wins
over a link, and a link over bytes given inline; empty identifiers and links count
as missing.
-/

namespace ChatIntake

/-- The link that holds encoded bytes itself, together with their mime type. -/
def embeddedLink (mime data : String) : String := "data:" ++ mime ++ ";base64," ++ data

/-- A file: stored under an identifier, linked, given inline, or without any bytes. -/
inductive Attachment where
  | stored (id : String)
  | linked (url : String)
  | inline (data : String) (mime? : Option String)
  | absent
deriving DecidableEq

namespace Attachment

/-- The attachment that the fields of a file describe. -/
def ofFields (file : Json.Fields) : Attachment :=
  match file.fullText? "file_id" with
  | some id => stored id
  | none =>
    match file.fullText? "file_url" with
    | some url => linked url
    | none =>
      match (file.text? "file_data").or (file.text? "data") with
      | some data => inline data ((file.fullText? "mime_type").or (file.fullText? "content_type"))
      | none => absent

/-- The attachment given by the value under `file`; anything but an object has no bytes. -/
def read (file? : Option Json) : Attachment :=
  match file?.bind Json.fields? with
  | none => absent
  | some file => ofFields file

/-- The fields of an attachment in canonical form. -/
def fields (settings : Settings) : Attachment → Json.Fields
  | stored id => [("file_id", .string id)]
  | linked url => [("file_url", .string url)]
  | inline data mime? => [("file_url", .string (embeddedLink (mime?.getD settings.fileMime) data))]
  | absent => []

end Attachment

end ChatIntake
