import ChatIntake.Proofs.Content.Spelling
import ChatIntake.Proofs.Intake.Contribution
import ChatIntake.Proofs.Text.Lines
import ChatIntake.Proofs.Tool.Result

/-!
# One body in three roles

A body that a system or developer message may have is read in two more ways: as what a
user says, and as the answer of a tool. All three readers find the same texts in it, in
the same order. Only the empty list sets them apart, since it holds no text at all.
-/

namespace ChatIntake

namespace Body

open Guidance (Leaf Leaves)

/-- The part that a text is in canonical form. -/
def canonicalText (s : String) : Json :=
  .object [("type", .string "input_text"), ("text", .string s)]

/-- The bodies that hold texts in canonical form and nothing else: no body, one part, or
a list of parts. -/
inductive HoldsTexts : Option Json → List String → Prop
  | missing : HoldsTexts none []
  | null : HoldsTexts (some .null) []
  | one (s : String) : HoldsTexts (some (canonicalText s)) [s]
  | list (texts : List String) : HoldsTexts (some (.array (texts.map canonicalText))) texts

variable {body? : Option Json} {texts : List String}

/-- The canonical form of a body that is all text holds its leaves, the empty ones too. -/
theorem holdsTexts_canonical (settings : Settings) (h : Leaves body? texts) :
    HoldsTexts (body?.map (canonical settings)) texts := by
  cases h with
  | missing => exact .missing
  | null => exact .null
  | @one body s hbody =>
      cases hbody with
      | string => exact .list [s]
      | @object part _ htype htext =>
          have hpart : canonicalPart settings (.object part) = canonicalText s :=
            canonicalPart_of_leaf (.object htype htext)
          change HoldsTexts (some (canonicalPart settings (.object part))) [s]
          rw [hpart]
          exact .one s
  | @list elements texts helements =>
      have hparts : elements.map (canonicalPart settings) = texts.map canonicalText :=
        Listing.map_eq_map_iff_forall₂.mpr (helements.imp fun _ _ => canonicalPart_of_leaf)
      change HoldsTexts (some (.array (elements.map (canonicalPart settings)))) texts
      rw [hparts]
      exact .list texts

theorem texts_of_leaves {elements : List Json} (h : List.Forall₂ Leaf elements texts) :
    elements.filterMap ToolResult.text? = texts := by
  induction h with
  | nil => rfl
  | cons helement _ ih => rw [List.filterMap_cons, text?_of_leaf helement, ih]

/-- The answer of a tool joins the leaves of a body that is all text. The empty list has
no leaf to join, and is answered as it stands. -/
theorem answerText_of_leaves (h : Leaves body? texts) :
    ToolResult.answerText body? =
      if body? = some (.array []) then "[]" else Text.joinLines texts := by
  cases h with
  | missing | null => rfl
  | one hbody =>
      have htext := text?_of_leaf hbody
      cases hbody <;> simp [ToolResult.answerText, htext, Text.joinLines_singleton]
  | list helements =>
      simp only [ToolResult.answerText, texts_of_leaves helements]
      cases helements with
      | nil => decide
      | cons => simp

end Body

open Message

/-- A conversation of one message gives what that message contributes. -/
theorem takeIn_singleton {settings : Settings} {message : Json} {contribution : Contribution}
    (h : Contribution.Contributes settings message contribution) (existing : String) :
    takeIn settings existing [message] =
      .ok ⟨Text.beside existing contribution.guidance, contribution.items⟩ := by
  rw [takeIn_eq_ok_iff]
  refine ⟨[contribution], .cons h .nil, ?_⟩
  have hguidance : Text.joinLines [existing, contribution.guidance] =
      Text.beside existing contribution.guidance := by
    rw [Text.joinLines_cons, Text.joinLines_singleton]
  simp [Intake.ofContributions, hguidance]

/-- How one body is read in each role that may have it, whatever the other fields of its
message are, and whatever instructions exist before. -/
structure ReadAlike (settings : Settings) (body? : Option Json) (texts : List String) : Prop where
  /-- The texts are the leaves of the body. -/
  leaves : Guidance.Leaves body? texts
  /-- What a user says with it is, in canonical form, these texts and nothing else. -/
  turn : ∀ existing fields, SpeaksAs fields .user → fields.get? "content" = body? →
    ∃ turn, takeIn settings existing [.object fields] = .ok ⟨existing, [.turn turn]⟩ ∧
      turn.get? "content" = body?.map (Body.canonical settings) ∧
      Body.HoldsTexts (turn.get? "content") texts
  /-- As guidance it contributes those of these texts that are not empty, each on lines of
  its own after what exists before. -/
  guidance : ∀ existing fields role, SpeaksAs fields role → role = .system ∨ role = .developer →
    fields.get? "content" = body? →
    takeIn settings existing [.object fields] =
      .ok ⟨"\n".intercalate ((existing :: texts).filter fun text => text ≠ ""), []⟩
  /-- A tool answers with the same texts on the same lines, but for the empty list. -/
  answer : ∀ existing fields id, SpeaksAs fields .tool → ToolResult.Answers fields id →
    fields.get? "content" = body? →
    takeIn settings existing [.object fields] = .ok ⟨existing, [.result ⟨id,
      if body? = some (.array []) then "[]"
      else "\n".intercalate (texts.filter fun text => text ≠ "")⟩]⟩

theorem readAlike_of_leaves (settings : Settings) {body? : Option Json} {texts : List String}
    (h : Guidance.Leaves body? texts) : ReadAlike settings body? texts := by
  constructor
  case leaves => exact h
  case turn =>
    intro existing fields hrole hbody
    have hturn : (Body.canonicalTurn settings fields).get? "content" =
        body?.map (Body.canonical settings) := by
      simp only [Body.canonicalTurn, Keyed.get?_mapAt, if_true, hbody]
    refine ⟨Body.canonicalTurn settings fields, ?_, hturn, ?_⟩
    · rw [takeIn_singleton (.user hrole), Text.beside_empty]
    · rw [hturn]
      exact Body.holdsTexts_canonical settings h
  case guidance =>
    rintro existing fields role hrole hguides rfl
    rw [takeIn_singleton (.guidance hrole hguides h), ← Text.joinLines_cons,
      Text.joinLines_eq_intercalate]
  case answer =>
    rintro existing fields id hrole hid rfl
    have hcall := ToolResult.callId?_eq_some_iff.mpr hid
    rw [takeIn_singleton (.tool hrole hcall), Text.beside_empty, Body.answerText_of_leaves h,
      Text.joinLines_eq_intercalate]

/-- A body that is taken in as guidance is read alike in every role. -/
theorem takeIn_in_every_role {settings : Settings} {existing : String} {fields : Json.Fields}
    {role : Role} {intake : Intake} (hrole : SpeaksAs fields role)
    (hguides : role = .system ∨ role = .developer)
    (h : takeIn settings existing [.object fields] = .ok intake) :
    ∃ texts, ReadAlike settings (fields.get? "content") texts := by
  obtain ⟨contributions, hcontributions, _⟩ := takeIn_eq_ok_iff.mp h
  obtain ⟨contribution, _, hread, _, _⟩ := List.forall₂_cons_left_iff.mp hcontributions
  cases hread with
  | guidance _ _ htexts => exact ⟨_, readAlike_of_leaves settings htexts⟩
  | user hother | assistant hother | tool hother =>
      cases hrole.unique hother
      simp at hguides

/-- Guidance in a list of a string, an empty string and a plain part. -/
def listedGuidance : Json.Fields := [("role", .string "developer"), ("content", .array [
  .string "a", .string "", .object [("text", .string "b\n"), ("type", .null)]])]

theorem takeIn_in_every_role_listedGuidance :
    SpeaksAs listedGuidance .developer ∧
      takeIn {} "e" [.object listedGuidance] = .ok ⟨"e\na\nb\n", []⟩ ∧
      ∃ texts, ReadAlike {} (listedGuidance.get? "content") texts := by
  have hrole : SpeaksAs listedGuidance .developer := rfl
  have h : takeIn {} "e" [.object listedGuidance] = .ok ⟨"e\na\nb\n", []⟩ := rfl
  exact ⟨hrole, h, takeIn_in_every_role hrole (.inr rfl) h⟩

end ChatIntake
