import ChatIntake.Settings.Schema
import ChatIntake.Text.Blank
import ChatIntake.Toml.Document

/-!
# Loading settings

Settings are loaded from the bytes of a file, if there is one. The text has to be
a table that fits the schema, and then no mime type in it may be blank; the mime
type of files is looked at first, and the others in the order of their formats.
-/

namespace ChatIntake

/-- A mime type in the settings. -/
inductive Setting where
  | fileMime
  | audioMime (format : String)
deriving DecidableEq

/-- Why settings cannot be loaded. -/
inductive LoadError where
  /-- There is no file, or it is not a text. -/
  | unreadable
  /-- The text is not a table that fits the schema. -/
  | malformed
  /-- A mime type is blank. -/
  | blank (setting : Setting)
deriving DecidableEq

/-- The keys that lead to a setting, with points between them. -/
def Setting.path : Setting → String
  | fileMime => "coercion.files.default_mime_type"
  | audioMime format => "coercion.audio.mime_types." ++ format

namespace LoadError

/-- What is wrong with a mime type that is blank. -/
def reason : String := "must not be empty"

/-- The text of an error. -/
def message : LoadError → String
  | unreadable => "Failed to open configuration file"
  | malformed => "Failed to parse configuration file"
  | blank setting => "Invalid value at " ++ setting.path ++ ": " ++ reason

end LoadError

namespace Settings

/-- The first setting that is blank. -/
def blank? (settings : Settings) : Option Setting :=
  if Text.isBlank settings.fileMime then some .fileMime
  else (settings.audioMimes.find? fun entry => Text.isBlank entry.2).map fun entry =>
    .audioMime entry.1

/-- The settings, unless one of them is blank. -/
def checked (settings : Settings) : Except LoadError Settings :=
  match blank? settings with
  | some setting => .error (.blank setting)
  | none => .ok settings

/-- The settings in a text. -/
def ofText (text : String) : Except LoadError Settings :=
  match (Toml.parse? text).bind ofTable? with
  | none => .error .malformed
  | some settings => checked settings

/-- The settings in a file, given by its bytes. -/
def load (file? : Option ByteArray) : Except LoadError Settings :=
  match file?.bind String.fromUTF8? with
  | none => .error .unreadable
  | some text => ofText text

end Settings

end ChatIntake
