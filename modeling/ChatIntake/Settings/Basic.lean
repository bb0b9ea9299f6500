import ChatIntake.Keyed

/-!
# Settings

The mime types that are used when a part of a conversation does not name one. An
audio format goes by the configured mime type, else by the common one.
-/

namespace ChatIntake

/-- The mime type of files that name none, and mime types of audio formats. -/
structure Settings where
  fileMime : String := "application/octet-stream"
  audioMimes : Keyed String := []
deriving DecidableEq

namespace Settings

/-- The mime type that an audio format has unless another is configured. -/
def commonMime (format : String) : String :=
  if format = "wav" then "audio/wav"
  else if format = "mp3" then "audio/mpeg"
  else "audio/" ++ format

/-- The mime type of an audio format. -/
def audioMime (settings : Settings) (format : String) : String :=
  (settings.audioMimes.get? format).getD (commonMime format)

end Settings

end ChatIntake
