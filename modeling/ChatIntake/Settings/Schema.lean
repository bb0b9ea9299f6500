import ChatIntake.Settings.Basic
import ChatIntake.Toml.Value

/-!
# The schema of settings

Which tables are settings. A section is a table with no unknown key, or a list of
its members in order; a member that is missing keeps its default. The mime types
of audio formats are always a table of texts, and are taken in the order of the keys.
-/

namespace ChatIntake.Settings

/-- The members of a section, under their names. Members past the named ones in a
list do not count. -/
def members? (names : List String) : Toml.Value → Option (Keyed Toml.Value)
  | .table entries =>
    if entries.all fun entry => names.contains entry.1 then some entries else none
  | .array elements => some (names.zip elements)
  | _ => none

/-- The text that a value is. -/
def text? : Toml.Value → Option String
  | .string text => some text
  | _ => none

/-- Read a member that may be missing. -/
def member? {α : Type} (members : Keyed Toml.Value) (name : String) (default : α)
    (read : Toml.Value → Option α) : Option α :=
  match members.get? name with
  | none => some default
  | some value => read value

/-- The key of the one entry that a moment has when it stands for a table. -/
def momentKey : String := "$__toml_private_datetime"

/-- The entries of a table of texts; a moment is a table of one text. -/
def texts? : Toml.Value → Option (Keyed String)
  | .table entries => entries.mapM fun entry => (text? entry.2).map fun text => (entry.1, text)
  | .moment moment => some [(momentKey, String.ofList moment.write)]
  | _ => none

/-- The mime type of files in the section `files`. -/
def fileMime? (value : Toml.Value) : Option String :=
  (members? ["default_mime_type"] value).bind fun members =>
    member? members "default_mime_type" ({} : Settings).fileMime text?

/-- The mime types of audio formats in the section `audio`. -/
def audioMimes? (value : Toml.Value) : Option (Keyed String) :=
  (members? ["mime_types"] value).bind fun members =>
    member? members "mime_types" [] fun mimes => (texts? mimes).map Keyed.byKey

/-- The settings in the section `coercion`. -/
def ofSection? (value : Toml.Value) : Option Settings := do
  let members ← members? ["files", "audio"] value
  let fileMime ← member? members "files" ({} : Settings).fileMime fileMime?
  let audioMimes ← member? members "audio" [] audioMimes?
  return { fileMime, audioMimes }

/-- The settings in a whole table. -/
def ofTable? (entries : Keyed Toml.Value) : Option Settings :=
  (members? ["coercion"] (.table entries)).bind fun members =>
    member? members "coercion" {} ofSection?

end ChatIntake.Settings
