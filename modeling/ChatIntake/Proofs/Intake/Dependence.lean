import ChatIntake.Proofs.Intake.Contribution

/-!
# What a contribution depends on

Of a message, the intake sees its role, its turn in canonical form, the entries for
calls, the leaves of its body, and the identifier and the text of its answer. Messages
that agree in these are taken in alike, under the same settings or under others.
-/

namespace ChatIntake

namespace Contribution

open Message

variable {first second : Settings}

/-- The turn counts for the user and the assistant alone; everything else that is read
of a message has nothing to do with the settings. -/
theorem ofMessage_congr {role : Role} {fields others : Json.Fields}
    (hturn : role = .user ∨ role = .assistant →
      Body.canonicalTurn first fields = Body.canonicalTurn second others)
    (hentries : ToolCall.entries fields = ToolCall.entries others)
    (hleaves : Guidance.leaves? (fields.get? "content") =
      Guidance.leaves? (others.get? "content"))
    (hid : ToolResult.callId? fields = ToolResult.callId? others)
    (hanswer : ToolResult.answerText (fields.get? "content") =
      ToolResult.answerText (others.get? "content")) :
    ofMessage first ⟨role, fields⟩ = ofMessage second ⟨role, others⟩ := by
  cases role with
  | system | developer => simp only [ofMessage, Guidance.ofMessage, Message.body?, hleaves]
  | user => simp only [ofMessage, hturn (.inl rfl)]
  | assistant => simp only [ofMessage, hentries, assistantTurn, hturn (.inr rfl)]
  | tool => simp only [ofMessage, ToolResult.ofMessage, Message.body?, hid, hanswer]

/-- Objects of one role are read alike if their contributions are the same; without a
role they are refused alike. -/
theorem read_congr {fields others : Json.Fields}
    (hrole : fields.get? "role" = others.get? "role")
    (hmessage : ∀ role, SpeaksAs fields role →
      ofMessage first ⟨role, fields⟩ = ofMessage second ⟨role, others⟩) :
    read first (.object fields) = read second (.object others) := by
  have htext : others.text? "role" = fields.text? "role" := by
    simp only [Json.Fields.text?, hrole]
  simp only [read, Message.read, Json.fields?, htext]
  cases hword : fields.text? "role" with
  | none => rfl
  | some word =>
      cases hknown : Role.ofText? word with
      | none => simp only [hknown]
      | some role =>
          simp only [hknown]
          apply hmessage role
          rw [Role.ofText?_eq_some_iff.mp hknown] at hword
          exact Json.Fields.text?_eq_some_iff.mp hword

theorem readAll_congr {values others : List Json}
    (h : List.Forall₂ (fun value other => read first value = read second other) values others) :
    readAll first values = readAll second others := by
  induction h with
  | nil => rfl
  | cons hvalue _ ih => simp only [readAll, hvalue, ih]

end Contribution

/-- Conversations whose messages are read alike, one by one, are taken in alike. -/
theorem takeIn_congr {first second : Settings} {messages others : List Json} (existing : String)
    (h : List.Forall₂ (fun value other =>
      Contribution.read first value = Contribution.read second other) messages others) :
    takeIn first existing messages = takeIn second existing others := by
  simp only [takeIn, Contribution.readAll_congr h]

end ChatIntake
