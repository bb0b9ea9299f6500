import ChatIntake.Proofs.Content.Rewriting
import ChatIntake.Proofs.Content.Substance
import ChatIntake.Proofs.Intake.Layout
import ChatIntake.Proofs.Intake.Presence
import ChatIntake.Proofs.Keyed

/-!
# Turns and the messages that they come from

The assistant's message gives a turn exactly if its body matters. A turn of the user
or the assistant is its message with the body put into canonical form: it has the same keys
in the same order, every other field is the same, and the body is rewritten where it stands,
element by element and each element by its rule.
-/

namespace ChatIntake

namespace Body

/-- The canonical form of a body is made of the forms that its elements have when each is
the only element of a list. -/
inductive Elementwise (settings : Settings) : Json → Json → Prop
  | string {s : String} {form : Json}
      (hform : canonical settings (.array [.string s]) = .array [form]) :
      Elementwise settings (.string s) (.array [form])
  | list {elements forms : List Json}
      (hforms : List.Forall₂
        (fun element form => canonical settings (.array [element]) = .array [form])
        elements forms) :
      Elementwise settings (.array elements) (.array forms)
  | alone {body form : Json} (hstring : ∀ s, body ≠ .string s)
      (hlist : ∀ elements, body ≠ .array elements)
      (hform : canonical settings (.array [body]) = .array [form]) :
      Elementwise settings body form

theorem elementwise_canonical (settings : Settings) (body : Json) :
    Elementwise settings body (canonical settings body) := by
  cases body with
  | string s => exact .string rfl
  | array elements =>
      apply Elementwise.list
      rw [List.forall₂_map_right_iff]
      exact List.forall₂_same.mpr fun _ _ => rfl
  | null | bool | number | object => exact .alone nofun nofun rfl

theorem canonical_eq_null_iff {settings : Settings} {body : Json} :
    canonical settings body = .null ↔ body = .null := by
  cases body with
  | object fields =>
      obtain ⟨others, hothers⟩ := canonicalPart_object settings fields
      simp [canonical, hothers]
  | null | bool | number | string | array => simp [canonical, canonicalPart, Part.read?]

theorem get?_content_canonicalTurn (settings : Settings) (fields : Json.Fields) :
    (canonicalTurn settings fields).get? "content" =
      (fields.get? "content").map (canonical settings) := by
  rw [canonicalTurn, Keyed.get?_mapAt, if_pos rfl]

end Body

namespace Message

/-- A field of a message and the field of the turn that stands in its place. -/
inductive FieldBecomes (settings : Settings) : String × Json → String × Json → Prop
  | kept {key : String} {value : Json} (hkey : key ≠ "content") :
      FieldBecomes settings (key, value) (key, value)
  | content (body : Json) :
      FieldBecomes settings ("content", body) ("content", Body.canonical settings body)

/-- A turn beside the message that it comes from. -/
structure KeepsAllButBody (settings : Settings) (fields turn : Json.Fields) : Prop where
  /-- Field by field, the turn is the message with its body in canonical form. -/
  fieldwise : List.Forall₂ (FieldBecomes settings) fields turn
  /-- It has the same keys in the same order. -/
  keys_eq : turn.map (·.1) = fields.map (·.1)
  get?_eq : ∀ key, key ≠ "content" → turn.get? key = fields.get? key
  missing_iff : turn.get? "content" = none ↔ fields.get? "content" = none
  null_iff : turn.get? "content" = some .null ↔ fields.get? "content" = some .null
  /-- The body is rewritten by itself, and element by element. -/
  body_eq : ∀ body, fields.get? "content" = some body →
    turn.get? "content" = some (Body.canonical settings body) ∧
      Body.Elementwise settings body (Body.canonical settings body)
  /-- In a message with each key once, this is all that is put into it. -/
  insert_eq : (fields.map (·.1)).Nodup → ∀ body, fields.get? "content" = some body →
    turn = fields.insert "content" (Body.canonical settings body)

theorem forall₂_fieldBecomes_canonicalTurn (settings : Settings) (fields : Json.Fields) :
    List.Forall₂ (FieldBecomes settings) fields (Body.canonicalTurn settings fields) := by
  rw [Body.canonicalTurn, Keyed.mapAt, List.forall₂_map_right_iff]
  apply List.forall₂_same.mpr
  rintro ⟨key, value⟩ _
  by_cases hkey : key = "content"
  · subst hkey
    rw [if_pos rfl]
    exact .content value
  · rw [if_neg hkey]
    exact .kept hkey

theorem keepsAllButBody_canonicalTurn (settings : Settings) (fields : Json.Fields) :
    KeepsAllButBody settings fields (Body.canonicalTurn settings fields) := by
  have hcontent := Body.get?_content_canonicalTurn settings fields
  constructor
  case fieldwise => exact forall₂_fieldBecomes_canonicalTurn settings fields
  case keys_eq => exact Keyed.keys_mapAt _ _ _
  case get?_eq => exact fun key hkey => Body.get?_canonicalTurn_of_ne settings fields hkey
  case missing_iff => rw [hcontent, Option.map_eq_none_iff]
  case null_iff =>
    simp only [hcontent, Option.map_eq_some_iff, Body.canonical_eq_null_iff, exists_eq_right]
  case body_eq =>
    intro body hbody
    rw [hcontent, hbody]
    exact ⟨rfl, Body.elementwise_canonical settings body⟩
  case insert_eq => exact fun hkeys body hbody => Keyed.mapAt_eq_insert hkeys hbody _

/-- The body of a turn is that of its message with each element rewritten by its rule. -/
def BodyBecomes (settings : Settings) (fields turn : Json.Fields) : Prop :=
  ∀ body, fields.get? "content" = some body → ∃ form, turn.get? "content" = some form ∧
    List.Forall₂ (Body.Becomes settings) (Body.elements body) (Body.elements form)

theorem bodyBecomes_canonicalTurn (settings : Settings) (fields : Json.Fields) :
    BodyBecomes settings fields (Body.canonicalTurn settings fields) := by
  intro body hbody
  refine ⟨Body.canonical settings body, ?_, Body.forall₂_becomes_canonical settings body⟩
  rw [Body.get?_content_canonicalTurn, hbody, Option.map_some]

/-- Each turn of a block comes from the fields of a message of the user or the assistant. -/
def TurnsFrom (R : Json.Fields → Json.Fields → Prop) (message : Json) (block : List Item) :
    Prop :=
  ∀ turn, Item.turn turn ∈ block → ∃ fields, message = .object fields ∧
    (SpeaksAs fields .user ∨ SpeaksAs fields .assistant) ∧ R fields turn

/-- The assistant's message gives a turn exactly if it matters. Messages whose body is
one object are left out: these are judged by a rule of their own. -/
def TurnIfMatters (message : Json) (block : List Item) : Prop :=
  ∀ fields : Json.Fields, message = .object fields → SpeaksAs fields .assistant →
    (∀ part, fields.get? "content" ≠ some (.object part)) →
      ((∃ item ∈ block, item.kind = .turn) ↔ Body.Matters (fields.get? "content"))

end Message

namespace Contribution

open Message

variable {settings : Settings} {value : Json} {contribution : Contribution}

/-- What holds of the fields of every message and their canonical form holds of its turns. -/
theorem Contributes.turnsFrom {R : Json.Fields → Json.Fields → Prop}
    (hR : ∀ fields, R fields (Body.canonicalTurn settings fields))
    (h : Contributes settings value contribution) : TurnsFrom R value contribution.items := by
  intro turn hturn
  cases h with
  | guidance => cases hturn
  | @user fields hrole =>
      cases List.mem_singleton.mp hturn
      exact ⟨fields, rfl, .inl hrole, hR fields⟩
  | @assistant fields entries calls hrole =>
      have hmem : Item.turn turn ∈ assistantTurn settings fields := by
        simpa using hturn
      refine ⟨fields, rfl, .inr hrole, ?_⟩
      rcases assistantTurn_cases settings fields with hnone | hone
      · rw [hnone] at hmem
        cases hmem
      · rw [hone] at hmem
        cases List.mem_singleton.mp hmem
        exact hR fields
  | tool => cases List.mem_singleton.mp hturn

theorem Contributes.turnIfMatters (h : Contributes settings value contribution) :
    TurnIfMatters value contribution.items := by
  rintro fields rfl hassistant hobject
  cases h with
  | guidance hrole hguides =>
      cases hrole.unique hassistant
      simp at hguides
  | user hrole | tool hrole => cases hrole.unique hassistant
  | assistant =>
      rw [exists_turn_iff, Body.get?_content_canonicalTurn]
      exact Body.isSubstantial_canonical_iff hobject

end Contribution

section Conversations

variable {settings : Settings} {existing : String} {messages : List Json} {intake : Intake}

/-- In a conversation that is taken in, a message of the assistant whose body is no object
gives a turn exactly if the body matters. -/
theorem takeIn_turn_iff_matters (h : takeIn settings existing messages = .ok intake) :
    Message.Blockwise settings Message.TurnIfMatters messages intake.items :=
  blockwise_of_takeIn (fun _ _ hcontributes => hcontributes.turnIfMatters) h

/-- An image with an empty text beside it, as clients send images and in canonical form. -/
def emptyCaptions : List Json := [
  .object [("role", .string "assistant"), ("content", .array [.object [
    ("type", .string "image_url"), ("image_url", .string "u"), ("text", .string "")]])],
  .object [("role", .string "assistant"), ("content", .array [.object [
    ("type", .string "input_image"), ("image_url", .string "u"), ("text", .string "")]])]]

theorem takeIn_turn_iff_matters_emptyCaptions :
    takeIn {} "" emptyCaptions = .ok ⟨"", [.turn [("role", .string "assistant"),
        ("content", .array [.object [
          ("type", .string "input_image"), ("image_url", .string "u")]])]]⟩ ∧
      ∃ intake, takeIn {} "" emptyCaptions = .ok intake ∧
        Message.Blockwise {} Message.TurnIfMatters emptyCaptions intake.items :=
  ⟨rfl, _, rfl, takeIn_turn_iff_matters rfl⟩

/-- A turn of a conversation that is taken in keeps all of its message but the body, and of
the body the place, and how many elements it has. -/
theorem takeIn_turns_keep_fields (h : takeIn settings existing messages = .ok intake) :
    Message.Blockwise settings (Message.TurnsFrom (Message.KeepsAllButBody settings)) messages
      intake.items :=
  blockwise_of_takeIn (fun _ _ hcontributes =>
    hcontributes.turnsFrom (Message.keepsAllButBody_canonicalTurn settings)) h

/-- Questions with a name, with a body that is `null` and without one, and an answer. -/
def namedQuestions : List Json := [
  .object [("name", .string "n"), ("content", .string "q"), ("role", .string "user")],
  .object [("content", .null), ("role", .string "user")],
  .object [("role", .string "user"), ("seen", .bool true)],
  .object [("role", .string "assistant"), ("content", .array [.number (.int 1), .string "a"]),
    ("tool_calls", .array [])]]

theorem takeIn_turns_keep_fields_namedQuestions :
    takeIn {} "" namedQuestions = .ok ⟨"", [
        .turn [("name", .string "n"), ("content", .array [
          .object [("type", .string "input_text"), ("text", .string "q")]]),
          ("role", .string "user")],
        .turn [("content", .null), ("role", .string "user")],
        .turn [("role", .string "user"), ("seen", .bool true)],
        .turn [("role", .string "assistant"), ("content", .array [.number (.int 1),
          .object [("type", .string "input_text"), ("text", .string "a")]]),
          ("tool_calls", .array [])]]⟩ ∧
      ∃ intake, takeIn {} "" namedQuestions = .ok intake ∧
        Message.Blockwise {} (Message.TurnsFrom (Message.KeepsAllButBody {})) namedQuestions
          intake.items :=
  ⟨rfl, _, rfl, takeIn_turns_keep_fields rfl⟩

/-- Under any settings, the form of an element is the one that its rule gives, and in a
conversation that is taken in the elements of every turn are these forms. -/
theorem takeIn_rewrites_by_rule :
    (∀ (settings : Settings) (element form : Json),
      Body.canonicalPart settings element = form ↔ Body.Becomes settings element form) ∧
    ∀ {settings : Settings} {existing : String} {messages : List Json} {intake : Intake},
      takeIn settings existing messages = .ok intake →
        Message.Blockwise settings (Message.TurnsFrom (Message.BodyBecomes settings)) messages
          intake.items := by
  refine ⟨fun _ _ _ => Body.canonicalPart_eq_iff, fun h => ?_⟩
  exact blockwise_of_takeIn (fun _ _ hcontributes =>
    hcontributes.turnsFrom (Message.bodyBecomes_canonicalTurn _)) h

/-- A question with one part for each rule, and with parts that look alike but are none. -/
def mixedQuestion : List Json := [
  .object [("role", .string "user"), ("content", .array [
    .string "a",
    .object [("text", .string "b"), ("type", .bool false), ("more", .null)],
    .object [("type", .string "image_url"), ("image_url", .object [
      ("detail", .string "low"), ("url", .string "u")])],
    .object [("type", .string "input_audio"), ("input_audio", .object [
      ("format", .string "ogg"), ("data", .string "AAAA")])],
    .object [("type", .string "file"), ("file", .null), ("file_id", .string "f")],
    .object [("type", .string "image_url"), ("image_url", .object [("url", .null)])],
    .object [("type", .number (.int 1)), ("text", .string "c")]])]]

theorem takeIn_rewrites_by_rule_mixedQuestion :
    takeIn {} "" mixedQuestion = .ok ⟨"", [.turn [("role", .string "user"), ("content", .array [
        .object [("type", .string "input_text"), ("text", .string "a")],
        .object [("type", .string "input_text"), ("text", .string "b")],
        .object [("type", .string "input_image"), ("image_url", .string "u"),
          ("detail", .string "low")],
        .object [("type", .string "input_file"),
          ("file_url", .string "data:audio/ogg;base64,AAAA")],
        .object [("type", .string "input_file")],
        .object [("type", .string "image_url"), ("image_url", .object [("url", .null)])],
        .object [("type", .number (.int 1)), ("text", .string "c")]])]]⟩ ∧
      ∃ intake, takeIn {} "" mixedQuestion = .ok intake ∧
        Message.Blockwise {} (Message.TurnsFrom (Message.BodyBecomes {})) mixedQuestion
          intake.items :=
  ⟨rfl, _, rfl, takeIn_rewrites_by_rule.2 rfl⟩

end Conversations

end ChatIntake
