import ChatIntake.Proofs.Intake.Contribution
import ChatIntake.Proofs.Text.Lines

/-!
# The instructions of a conversation

The instructions are one flat list of texts, joined line by line: those that exist
already, and after them the leaves of the system and developer messages in their order.
They are set beside the items, and neither has a say in the other.
-/

namespace ChatIntake

/-- The texts that a message adds to the instructions: its leaves if it is a system or
developer message, and none in any other role. -/
inductive Message.Guides : Json → List String → Prop
  | guidance {fields : Json.Fields} {role : Role} {texts : List String}
      (hrole : SpeaksAs fields role) (hguides : role = .system ∨ role = .developer)
      (htexts : Guidance.Leaves (fields.get? "content") texts) : Guides (.object fields) texts
  | other {fields : Json.Fields} {role : Role} (hrole : SpeaksAs fields role)
      (hother : ¬ (role = .system ∨ role = .developer)) : Guides (.object fields) []

/-- The guidance of a contribution joins the texts that its message adds. -/
theorem Contribution.Contributes.exists_guides {settings : Settings} {value : Json}
    {contribution : Contribution} (h : Contributes settings value contribution) :
    ∃ texts, Message.Guides value texts ∧ contribution.guidance = Text.joinLines texts := by
  cases h with
  | guidance hrole hguides htexts => exact ⟨_, .guidance hrole hguides htexts, rfl⟩
  | user hrole | assistant hrole | tool hrole => exact ⟨[], .other hrole (by simp), rfl⟩

/-- Over a conversation, the guidance joins the texts of one message after the other. -/
theorem Contribution.exists_guides_of_forall₂ {settings : Settings} {messages : List Json}
    {contributions : List Contribution}
    (h : List.Forall₂ (Contributes settings) messages contributions) :
    ∃ texts, List.Forall₂ Message.Guides messages texts ∧
      contributions.map guidance = texts.map Text.joinLines := by
  have hguides : ∀ m ∈ messages, ∀ contribution, Contributes settings m contribution →
      ∃ texts, Message.Guides m texts ∧ contribution.guidance = Text.joinLines texts :=
    fun _ _ _ hcontributes => hcontributes.exists_guides
  obtain ⟨texts, htexts, hjoined⟩ := Listing.exists_forall₂_of_forall₂ hguides h
  exact ⟨texts, htexts, Listing.map_eq_map_iff_forall₂.mpr hjoined⟩

/-- Joining the guidance of each message is joining the texts of all messages. -/
theorem Intake.ofContributions_instructions_of_guides {existing : String}
    {contributions : List Contribution} {texts : List (List String)}
    (h : contributions.map Contribution.guidance = texts.map Text.joinLines) :
    (Intake.ofContributions existing contributions).instructions =
      Text.joinLines (existing :: texts.flatten) := by
  calc
    (Intake.ofContributions existing contributions).instructions =
        Text.joinLines (existing :: texts.map Text.joinLines) := by
      rw [Intake.ofContributions, h]
    _ = Text.beside existing (Text.joinLines (texts.map Text.joinLines)) :=
      Text.joinLines_cons existing _
    _ = Text.beside existing (Text.joinLines texts.flatten) := by
      rw [Text.joinLines_map_joinLines]
    _ = Text.joinLines (existing :: texts.flatten) := (Text.joinLines_cons existing _).symm

/-- The instructions join the texts that are not empty among those that exist already
and those of the messages, with one line break between neighbours. Whether a
conversation is taken in, and with which items, does not depend on what exists already. -/
theorem takeIn_instructions (settings : Settings) (existing : String) (messages : List Json) :
    (∀ intake, takeIn settings existing messages = .ok intake →
      ∃ texts, List.Forall₂ Message.Guides messages texts ∧
        Text.JoinedFrom ((existing :: texts.flatten).filter fun text => text ≠ "")
          intake.instructions) ∧
    ∀ other, (takeIn settings other messages).map Intake.items =
      (takeIn settings existing messages).map Intake.items := by
  constructor
  · intro intake h
    obtain ⟨contributions, hcontributions, rfl⟩ := takeIn_eq_ok_iff.mp h
    obtain ⟨texts, htexts, hjoined⟩ := Contribution.exists_guides_of_forall₂ hcontributions
    refine ⟨texts, htexts, ?_⟩
    rw [Intake.ofContributions_instructions_of_guides hjoined]
    exact Text.joinedFrom_joinLines _
  · intro other
    simp only [takeIn]
    cases Contribution.readAll settings messages <;> rfl

/-- Guidance with an empty part and a break of its own, around a message of the user. -/
def scatteredGuidance : List Json := [
  .object [("role", .string "system"),
    ("content", .array [.string "a", .string "", .object [("text", .string "b\n")]])],
  .object [("role", .string "user"), ("content", .string "c")],
  .object [("role", .string "developer"), ("content", .null)],
  .object [("role", .string "developer"), ("content", .object [("text", .string "d")])]]

theorem takeIn_instructions_scatteredGuidance :
    ∃ intake, takeIn {} "" scatteredGuidance = .ok intake ∧
      intake.instructions = "a\nb\n\nd" ∧
      ∃ texts, List.Forall₂ Message.Guides scatteredGuidance texts ∧
        Text.JoinedFrom (("" :: texts.flatten).filter fun text => text ≠ "")
          intake.instructions :=
  ⟨_, rfl, by decide, (takeIn_instructions {} "" scatteredGuidance).1 _ rfl⟩

end ChatIntake
