import ChatIntake.Proofs.Intake.Turns
import ChatIntake.Proofs.Settings.Load

/-!
# No link without a mime type

Settings that are loaded hold no blank mime type, and the default settings hold none either.
A mime type that is made up for an audio format is not blank whatever the format is. So the
links that a conversation gets its mime types for all have one.
-/

namespace ChatIntake

namespace Text

theorem isBlank_eq_false_iff {text : String} :
    isBlank text = false ↔ ∃ c ∈ text.toList, isSpace c = false := by
  rw [← Bool.not_eq_true, isBlank_iff]
  simp only [not_forall, Bool.not_eq_true, exists_prop]

theorem isBlank_append_eq_false {text : String} (h : isBlank text = false) (rest : String) :
    isBlank (text ++ rest) = false := by
  obtain ⟨c, hc, hspace⟩ := isBlank_eq_false_iff.mp h
  apply isBlank_eq_false_iff.mpr
  refine ⟨c, ?_, hspace⟩
  rw [String.toList_append]
  exact List.mem_append_left _ hc

end Text

namespace Settings

/-- Settings that hold no blank mime type. -/
structure Sound (settings : Settings) : Prop where
  fileMime : Text.isBlank settings.fileMime = false
  audioMimes : ∀ entry ∈ settings.audioMimes, Text.isBlank entry.2 = false

theorem sound_default : Sound {} := by
  constructor
  · decide
  · exact fun entry hentry => absurd hentry List.not_mem_nil

/-- Whatever the file is, the settings loaded from it are sound. -/
theorem sound_of_load {file? : Option ByteArray} {settings : Settings}
    (h : load file? = .ok settings) : Sound settings := by
  have hanswered := answered_load file?
  rw [h] at hanswered
  generalize hanswer : Except.ok settings = answer at hanswered
  cases hanswered with
  | unreadable | notTable => cases hanswer
  | tree _ _ htree =>
      cases htree with
      | doubled | misfit => cases hanswer
      | checked _ _ hchecked =>
          cases hchecked with
          | blankFileMime | blankAudioMime => cases hanswer
          | sound hfileMime haudioMimes =>
              cases hanswer
              exact ⟨hfileMime, haudioMimes⟩

theorem isBlank_commonMime (format : String) : Text.isBlank (commonMime format) = false := by
  simp only [commonMime]
  split_ifs
  · decide
  · decide
  · exact Text.isBlank_append_eq_false (by decide) format

/-- Sound settings have a mime type for every format, the blank ones too. -/
theorem Sound.isBlank_audioMime {settings : Settings} (h : Sound settings) (format : String) :
    Text.isBlank (settings.audioMime format) = false := by
  cases hmime : settings.audioMimes.get? format with
  | none =>
      simp only [audioMime, hmime, Option.getD_none]
      exact isBlank_commonMime format
  | some mime =>
      simp only [audioMime, hmime, Option.getD_some]
      exact h.audioMimes _ (Keyed.mem_of_get?_eq_some hmime)

end Settings

namespace Body

/-- An element that has no mime type of its own for its bytes, beside a link with its bytes
and a mime type that is not blank. -/
def LinkedInFull (element form : Json) : Prop :=
  ∀ data, Part.LacksMime element data →
    ∃ mime, Text.isBlank mime = false ∧ form = .object [("type", .string "input_file"),
      ("file_url", .string ("data:" ++ mime ++ ";base64," ++ data))]

theorem canonicalPart_linkedInFull {settings : Settings} (h : settings.Sound) (element : Json) :
    LinkedInFull element (canonicalPart settings element) := by
  intro data hlacks
  cases hlacks with
  | @audio part audio _ format htag haudio hdata hformat =>
      refine ⟨settings.audioMime format, h.isBlank_audioMime format, ?_⟩
      rw [canonicalPart_of_denotes (.audio htag haudio hdata hformat)]
      rfl
  | file htag hfile hinline =>
      refine ⟨settings.fileMime, h.fileMime, ?_⟩
      rw [canonicalPart_of_denotes (.file htag), hfile]
      simp only [Attachment.read, Option.bind_some, Json.fields?, ← hinline.eq_ofFields]
      rfl

end Body

/-- The body of a turn beside that of its message, where every link is made in full. -/
def Message.LinksInFull (fields turn : Json.Fields) : Prop :=
  ∀ body, fields.get? "content" = some body → ∃ form, turn.get? "content" = some form ∧
    List.Forall₂ Body.LinkedInFull (Body.elements body) (Body.elements form)

theorem Message.linksInFull_canonicalTurn {settings : Settings} (h : settings.Sound)
    (fields : Json.Fields) : LinksInFull fields (Body.canonicalTurn settings fields) := by
  intro body hbody
  refine ⟨Body.canonical settings body, ?_, ?_⟩
  · rw [Body.get?_content_canonicalTurn, hbody, Option.map_some]
  · rw [Body.elements_canonical, List.forall₂_map_right_iff]
    exact List.forall₂_same.mpr fun element _ => Body.canonicalPart_linkedInFull h element

/-- Under the default settings, and under all that are loaded from a file, no audio format
goes by a blank mime type, and in a conversation no link with bytes in it is made with one. -/
theorem takeIn_links_in_full {settings : Settings}
    (h : settings = {} ∨ ∃ file?, Settings.load file? = .ok settings) :
    (∀ format, Text.isBlank (settings.audioMime format) = false) ∧
    ∀ {existing : String} {messages : List Json} {intake : Intake},
      takeIn settings existing messages = .ok intake →
        Message.Blockwise settings (Message.TurnsFrom Message.LinksInFull) messages
          intake.items := by
  have hsound : settings.Sound := by
    rcases h with rfl | ⟨file?, hload⟩
    · exact Settings.sound_default
    · exact Settings.sound_of_load hload
  refine ⟨hsound.isBlank_audioMime, fun hintake => ?_⟩
  exact blockwise_of_takeIn (fun _ _ hcontributes =>
    hcontributes.turnsFrom (Message.linksInFull_canonicalTurn hsound)) hintake

/-- A file with a mime type for one format. -/
def vorbisFile : String := "[coercion.audio.mime_types]\nogg = \"audio/vorbis\"\n"

/-- Audio of a format that is blank, and a file whose mime type is empty. -/
def unnamedSounds : List Json := [.object [("role", .string "user"), ("content", .array [
  .object [("type", .string "input_audio"),
    ("input_audio", .object [("data", .string "AAAA"), ("format", .string " ")])],
  .object [("type", .string "file"),
    ("file", .object [("data", .string "BBBB"), ("mime_type", .string "")])]])]]

theorem takeIn_links_in_full_unnamedSounds :
    ∃ settings intake, Settings.load (some vorbisFile.toUTF8) = .ok settings ∧
      settings.audioMime "" = "audio/" ∧ Text.isBlank (settings.audioMime "") = false ∧
      takeIn settings "" unnamedSounds = .ok intake ∧
      intake.items = [.turn [("role", .string "user"), ("content", .array [
        .object [("type", .string "input_file"), ("file_url", .string "data:audio/ ;base64,AAAA")],
        .object [("type", .string "input_file"),
          ("file_url", .string "data:application/octet-stream;base64,BBBB")]])]] ∧
      Message.Blockwise settings (Message.TurnsFrom Message.LinksInFull) unnamedSounds
        intake.items := by
  have hload : Settings.load (some vorbisFile.toUTF8) =
      .ok { audioMimes := [("ogg", "audio/vorbis")] } := by
    rw [Settings.load_eq_ofText rfl]
    decide +kernel
  have hlinks := takeIn_links_in_full (.inr ⟨_, hload⟩)
  exact ⟨_, _, hload, rfl, hlinks.1 "", rfl, rfl, hlinks.2 rfl⟩

end ChatIntake
