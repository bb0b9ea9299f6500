import ChatIntake.Proofs.Content.Mime
import ChatIntake.Proofs.Intake.Dependence

/-!
# Conversations under two settings

Settings decide nothing of a conversation but mime types: not whether it is taken in,
not its instructions, not which items it has. Items differ at most in links of the kind
that lacks a mime type of its own, and not at all where the settings agree on the types
that are needed.
-/

namespace ChatIntake

open Comparison

namespace Message

/-- A field under two settings: only the body of a turn may have two forms. -/
inductive FieldSameButMime : String × Json → String × Json → String × Json → Prop
  | same (field : String × Json) : FieldSameButMime field field field
  | content {body form other : Json} (hbody : Body.SameButMime body form other) :
      FieldSameButMime ("content", body) ("content", form) ("content", other)

theorem forks_canonicalTurn (first second : Settings) (fields : Json.Fields) :
    Forks FieldSameButMime fields (Body.canonicalTurn first fields)
      (Body.canonicalTurn second fields) := by
  apply forks_map
  rintro ⟨key, value⟩ _
  by_cases hkey : key = "content"
  · subst hkey
    simp only [if_true]
    exact .content (Body.sameButMime_canonical first second value)
  · simp only [if_neg hkey]
    exact .same _

/-- A message of the user or the assistant holds audio of a format: a part that has both
its data and that format. Fields are a list, so every body counts that stands in it. -/
inductive HoldsAudio : Json → String → Prop
  | intro {fields : Json.Fields} {role : Role} {body element : Json} {data format : String}
      (hrole : SpeaksAs fields role) (hturn : role = .user ∨ role = .assistant)
      (hbody : ("content", body) ∈ fields) (helement : element ∈ Body.elements body)
      (haudio : Part.Denotes element (.audio data format)) : HoldsAudio (.object fields) format

end Message

/-- An item under two settings: the same, or a turn of the same message with one form of
its body each. -/
inductive Item.SameButMime (messages : List Json) : Item → Item → Prop
  | call (c : ToolCall) : SameButMime messages (.call c) (.call c)
  | result (r : ToolResult) : SameButMime messages (.result r) (.result r)
  | turn {fields form other : Json.Fields} (hfields : .object fields ∈ messages)
      (hforms : Forks Message.FieldSameButMime fields form other) :
      SameButMime messages (.turn form) (.turn other)

theorem Item.SameButMime.kind_eq {messages : List Json} {item other : Item}
    (h : SameButMime messages item other) : item.kind = other.kind := by
  cases h <;> rfl

namespace Contribution

/-- A contribution under two settings. -/
structure SameButMime (messages : List Json) (contribution other : Contribution) : Prop where
  guidance_eq : contribution.guidance = other.guidance
  items : List.Forall₂ (Item.SameButMime messages) contribution.items other.items

variable {messages : List Json}

theorem sameButMime_self {contribution : Contribution}
    (h : ∀ item ∈ contribution.items, item.kind ≠ .turn) :
    SameButMime messages contribution contribution := by
  refine ⟨rfl, List.forall₂_same.mpr fun item hitem => ?_⟩
  cases item with
  | turn fields => exact absurd rfl (h _ hitem)
  | call c => exact .call c
  | result r => exact .result r

/-- The assistant's turn is there under all settings or under none. -/
theorem forall₂_assistantTurn (first second : Settings) {fields : Json.Fields}
    (hfields : .object fields ∈ messages) :
    List.Forall₂ (Item.SameButMime messages) (assistantTurn first fields)
      (assistantTurn second fields) := by
  simp only [assistantTurn, Body.isSubstantial_canonicalTurn first second fields]
  split
  · exact .cons (.turn hfields (Message.forks_canonicalTurn first second fields)) .nil
  · exact .nil

theorem outcomes_ofMessage (first second : Settings) {role : Role} {fields : Json.Fields}
    (hfields : .object fields ∈ messages) :
    Outcomes (SameButMime messages) (ofMessage first ⟨role, fields⟩)
      (ofMessage second ⟨role, fields⟩) := by
  cases role with
  | system | developer =>
      simp only [ofMessage]
      cases Guidance.ofMessage ⟨_, fields⟩ with
      | error rejection => exact .refused rejection
      | ok text => exact .taken (sameButMime_self (by simp))
  | user =>
      have hturn := Item.SameButMime.turn hfields (Message.forks_canonicalTurn first second fields)
      exact .taken ⟨rfl, .cons hturn .nil⟩
  | assistant =>
      simp only [ofMessage]
      cases ToolCall.readFrom 0 (ToolCall.entries fields) with
      | error rejection => exact .refused rejection
      | ok calls =>
          have hcalls : List.Forall₂ (Item.SameButMime messages) (calls.map .call)
              (calls.map .call) := by
            rw [List.forall₂_map_left_iff, List.forall₂_map_right_iff]
            exact List.forall₂_same.mpr fun c _ => .call c
          exact .taken ⟨rfl, List.rel_append (forall₂_assistantTurn first second hfields) hcalls⟩
  | tool =>
      simp only [ofMessage]
      cases ToolResult.ofMessage ⟨.tool, fields⟩ with
      | error rejection => exact .refused rejection
      | ok result => exact .taken (sameButMime_self (by simp [Item.kind]))

/-- A message is read alike under all settings. -/
theorem outcomes_read (first second : Settings) {value : Json} (hvalue : value ∈ messages) :
    Outcomes (SameButMime messages) (read first value) (read second value) := by
  simp only [read]
  cases hmessage : Message.read value with
  | error rejection => exact .refused rejection
  | ok message =>
      obtain ⟨rfl, _⟩ := Message.read_eq_ok_iff.mp hmessage
      exact outcomes_ofMessage first second hvalue

/-- So is a whole conversation. -/
theorem outcomes_readAll (first second : Settings) (messages : List Json) :
    Outcomes (List.Forall₂ (SameButMime messages)) (readAll first messages)
      (readAll second messages) := by
  rw [readAll_eq_readEach 0, readAll_eq_readEach 0]
  exact outcomes_readEach messages (fun _ _ hvalue => outcomes_read first second hvalue) 0

/-- A message is read as the same contribution if the settings agree on the mime types
that it needs. -/
theorem read_eq_of_agree {first second : Settings} {value : Json}
    (hfile : first.fileMime = second.fileMime)
    (haudio : ∀ format, Message.HoldsAudio value format →
      first.audioMime format = second.audioMime format) :
    read first value = read second value := by
  cases value with
  | object fields =>
      apply read_congr rfl
      intro role hrole
      refine ofMessage_congr (fun hturn => ?_) rfl rfl rfl rfl
      apply List.map_congr_left
      rintro ⟨key, body⟩ hbody
      by_cases hkey : key = "content"
      · subst hkey
        have hcanonical : Body.canonical first body = Body.canonical second body := by
          apply Body.canonical_congr hfile
          intro element helement data format h
          exact haudio format (.intro hrole hturn hbody helement h)
        simp only [if_true, hcanonical]
      · simp only [if_neg hkey]
  | null | bool | number | string | array => rfl

end Contribution

/-- An intake under two settings. -/
structure Intake.SameButMime (messages : List Json) (intake other : Intake) : Prop where
  instructions_eq : intake.instructions = other.instructions
  kinds_eq : intake.items.map Item.kind = other.items.map Item.kind
  items : List.Forall₂ (Item.SameButMime messages) intake.items other.items

theorem Intake.sameButMime_ofContributions {messages : List Json} (existing : String)
    {contributions others : List Contribution}
    (h : List.Forall₂ (Contribution.SameButMime messages) contributions others) :
    SameButMime messages (ofContributions existing contributions)
      (ofContributions existing others) := by
  have hguidance : contributions.map Contribution.guidance = others.map Contribution.guidance :=
    Listing.map_eq_map_iff_forall₂.mpr (h.imp fun _ _ hsame => hsame.guidance_eq)
  have hitems : List.Forall₂ (Item.SameButMime messages)
      (contributions.flatMap Contribution.items) (others.flatMap Contribution.items) :=
    List.rel_flatMap h fun _ _ hsame => hsame.items
  constructor
  case instructions_eq => simp only [ofContributions, hguidance]
  case kinds_eq =>
    exact Listing.map_eq_map_iff_forall₂.mpr (hitems.imp fun _ _ hsame => hsame.kind_eq)
  case items => exact hitems

/-- Under any two settings a conversation is refused for the same fault, or taken in with
the same instructions and with items that differ at most in the mime types of links that
lack one. If the settings agree on the mime type of files and on that of each format of
audio in the turns, nothing differs. -/
theorem takeIn_under_settings (first second : Settings) (existing : String)
    (messages : List Json) :
    Outcomes (Intake.SameButMime messages) (takeIn first existing messages)
      (takeIn second existing messages) ∧
    (first.fileMime = second.fileMime →
      (∀ m ∈ messages, ∀ format, Message.HoldsAudio m format →
        first.audioMime format = second.audioMime format) →
      takeIn first existing messages = takeIn second existing messages) := by
  constructor
  · have hread := Contribution.outcomes_readAll first second messages
    simp only [takeIn]
    generalize Contribution.readAll first messages = firstRead,
      Contribution.readAll second messages = secondRead at hread ⊢
    cases hread with
    | refused rejection => exact .refused rejection
    | taken h => exact .taken (Intake.sameButMime_ofContributions existing h)
  · intro hfile haudio
    apply takeIn_congr
    exact List.forall₂_same.mpr fun m hm => Contribution.read_eq_of_agree hfile (haudio m hm)

/-- A question that is spoken, with a file that names no mime type. -/
def spokenQuestion : List Json := [
  .object [("role", .string "user"), ("content", .array [
    .object [("type", .string "input_audio"),
      ("input_audio", .object [("data", .string "AAAA"), ("format", .string "wav")])],
    .object [("type", .string "file"), ("file", .object [("data", .string "BBBB")])]])]]

/-- Settings with a mime type of their own for a format that the question is not in. -/
def oggSettings : Settings := { audioMimes := [("ogg", "audio/vorbis")] }

theorem holdsAudio_spokenQuestion {m : Json} (hm : m ∈ spokenQuestion) {format : String}
    (h : Message.HoldsAudio m format) : format = "wav" := by
  rw [spokenQuestion, List.mem_singleton] at hm
  subst hm
  cases h with
  | intro hrole hturn hbody helement haudio =>
      have hread := Part.read?_eq_some_iff.mpr haudio
      simp only [List.mem_cons, Prod.mk.injEq, List.not_mem_nil, or_false] at hbody
      rcases hbody with ⟨hkey, _⟩ | ⟨_, rfl⟩
      · exact absurd hkey (by decide)
      · simp only [Body.elements, List.mem_cons, List.not_mem_nil, or_false] at helement
        rcases helement with rfl | rfl
        · cases hread
          rfl
        · cases hread

theorem takeIn_under_settings_spokenQuestion :
    (∀ m ∈ spokenQuestion, ∀ format, Message.HoldsAudio m format →
      Settings.audioMime {} format = oggSettings.audioMime format) ∧
    takeIn {} "" spokenQuestion = takeIn oggSettings "" spokenQuestion := by
  have hagree : ∀ m ∈ spokenQuestion, ∀ format, Message.HoldsAudio m format →
      Settings.audioMime {} format = oggSettings.audioMime format := by
    intro m hm format h
    rw [holdsAudio_spokenQuestion hm h]
    decide
  exact ⟨hagree, (takeIn_under_settings {} oggSettings "" spokenQuestion).2 rfl hagree⟩

end ChatIntake
