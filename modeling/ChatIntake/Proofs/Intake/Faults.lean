import ChatIntake.Proofs.Intake.Contribution
import ChatIntake.Proofs.Tool.Result

/-!
# Well-formed messages and faults

What a message must be to be taken in, and what is wrong with it otherwise, said of
its fields alone. A conversation is taken in exactly if all its messages are well
formed, and is refused exactly for the fault of the first that is not.
-/

namespace ChatIntake

namespace Message

/-- What is wrong with a message. Each constructor but the first supposes that what
the ones before it ask for is there. -/
inductive Fault : Json → Rejection → Prop
  | notAnObject {value : Json} (hvalue : ∀ fields, value ≠ .object fields) :
      Fault value .notAnObject
  | missingRole {fields : Json.Fields}
      (hrole : ∀ word, fields.get? "role" ≠ some (.string word)) :
      Fault (.object fields) .missingRole
  | unknownRole {fields : Json.Fields} {word : String}
      (hrole : fields.get? "role" = some (.string word))
      (hword : word ∉ ["system", "developer", "user", "assistant", "tool"]) :
      Fault (.object fields) (.unknownRole word)
  | notText {fields : Json.Fields} {role : Role} (hrole : SpeaksAs fields role)
      (hguides : role = .system ∨ role = .developer)
      (htext : ¬ Guidance.TextOnly (fields.get? "content")) :
      Fault (.object fields) (.notText role)
  | missingResultId {fields : Json.Fields} (hrole : SpeaksAs fields .tool)
      (hid : ∀ key ∈ ["tool_call_id", "toolCallId", "call_id"], ¬ fields.HoldsFullText key) :
      Fault (.object fields) .missingResultId
  | call {fields : Json.Fields} {before after : List Json} {entry : Json}
      {rejection : Rejection} (hrole : SpeaksAs fields .assistant)
      (hentries : fields.get? "tool_calls" = some (.array (before ++ entry :: after)))
      (hbefore : ∀ b ∈ before, ∃ call, ToolCall.Describes b call)
      (hentry : ToolCall.Fault before.length entry rejection) :
      Fault (.object fields) rejection

/-- What a message of each role must be. -/
inductive WellFormed : Json → Prop
  | guidance {fields : Json.Fields} {role : Role} (hrole : SpeaksAs fields role)
      (hguides : role = .system ∨ role = .developer)
      (htext : Guidance.TextOnly (fields.get? "content")) : WellFormed (.object fields)
  | user {fields : Json.Fields} (hrole : SpeaksAs fields .user) : WellFormed (.object fields)
  | assistant {fields : Json.Fields} (hrole : SpeaksAs fields .assistant)
      (hcalls : ∀ values, fields.get? "tool_calls" = some (.array values) →
        ∀ entry ∈ values, ∃ call, ToolCall.Describes entry call) :
      WellFormed (.object fields)
  | tool {fields : Json.Fields} (hrole : SpeaksAs fields .tool)
      (hid : ∃ key ∈ ["tool_call_id", "toolCallId", "call_id"], fields.HoldsFullText key) :
      WellFormed (.object fields)

theorem ofText?_eq_none_iff {word : String} :
    Role.ofText? word = none ↔ word ∉ ["system", "developer", "user", "assistant", "tool"] := by
  have hwords : ["system", "developer", "user", "assistant", "tool"] =
      Role.all.map Role.text := rfl
  rw [hwords, Role.ofText?, List.find?_eq_none]
  simp only [beq_iff_eq, List.mem_map, not_exists, not_and]

theorem fault_of_read_eq_error {value : Json} {rejection : Rejection}
    (h : read value = .error rejection) : Fault value rejection := by
  simp only [read] at h
  split at h
  · next hvalue =>
      cases h
      exact .notAnObject (Json.fields?_eq_none_iff.mp hvalue)
  · next fields hfields =>
      rw [Json.fields?_eq_some_iff.mp hfields]
      split at h
      · next hrole =>
          cases h
          exact .missingRole (Json.Fields.text?_eq_none_iff.mp hrole)
      · next word hrole =>
          split at h
          · next hword =>
              cases h
              exact .unknownRole (Json.Fields.text?_eq_some_iff.mp hrole)
                (ofText?_eq_none_iff.mp hword)
          · cases h

end Message

namespace Contribution

open Message

variable {settings : Settings}

/-- A message contributes exactly if it is well formed. -/
theorem exists_contributes_iff {value : Json} :
    (∃ contribution, Contributes settings value contribution) ↔ WellFormed value := by
  constructor
  · rintro ⟨contribution, h⟩
    cases h with
    | guidance hrole hguides htexts => exact .guidance hrole hguides ⟨_, htexts⟩
    | user hrole => exact .user hrole
    | assistant hrole hentries hcalls =>
        refine .assistant hrole fun values hvalues => ?_
        rw [← hentries.eq_of_get? hvalues]
        exact Listing.exists_forall₂_iff.mp ⟨_, hcalls⟩
    | tool hrole hid => exact .tool hrole (ToolResult.exists_callId?_iff.mp ⟨_, hid⟩)
  · intro h
    cases h with
    | guidance hrole hguides htext =>
        obtain ⟨texts, htexts⟩ := htext
        exact ⟨_, .guidance hrole hguides htexts⟩
    | user hrole => exact ⟨_, .user hrole⟩
    | @assistant fields hrole hcalls =>
        obtain ⟨entries, hentries⟩ : ∃ entries, ToolCall.Lists fields entries :=
          ⟨_, ToolCall.lists_entries fields⟩
        have hall : ∀ entry ∈ entries, ∃ call, ToolCall.Describes entry call := by
          cases hentries with
          | list hvalues => exact hcalls _ hvalues
          | nothing => exact fun _ hmem => absurd hmem List.not_mem_nil
        obtain ⟨calls, hdescribes⟩ := Listing.exists_forall₂_iff.mpr hall
        exact ⟨_, .assistant hrole hentries hdescribes⟩
    | tool hrole hid =>
        obtain ⟨id, hid⟩ := ToolResult.exists_callId?_iff.mpr hid
        exact ⟨_, .tool hrole hid⟩

theorem fault_of_ofMessage {fields : Json.Fields} {role : Role} {rejection : Rejection}
    (hrole : SpeaksAs fields role)
    (h : ofMessage settings ⟨role, fields⟩ = .error rejection) :
    Fault (.object fields) rejection := by
  cases role with
  | system | developer =>
      simp only [ofMessage] at h
      split at h
      · next hguidance =>
          cases h
          obtain ⟨htext, rfl⟩ := Guidance.ofMessage_eq_error_iff.mp hguidance
          exact .notText hrole (by simp) htext
      · cases h
  | user => cases h
  | assistant =>
      simp only [ofMessage] at h
      split at h
      · next hcalls =>
          cases h
          obtain ⟨before, entry, after, hentries, hbefore, hentry⟩ :=
            ToolCall.readFrom_eq_error_iff.mp hcalls
          rw [Nat.zero_add] at hentry
          have hlists := ToolCall.lists_entries fields
          rw [hentries] at hlists
          exact .call hrole (hlists.get?_eq (by simp)) hbefore hentry
      · cases h
  | tool =>
      simp only [ofMessage, ToolResult.ofMessage] at h
      cases hid : ToolResult.callId? fields with
      | none =>
          rw [hid] at h
          cases h
          exact .missingResultId hrole (ToolResult.callId?_eq_none_iff.mp hid)
      | some id =>
          rw [hid] at h
          cases h

/-- A message is refused exactly for its fault. -/
theorem read_eq_error_iff {value : Json} {rejection : Rejection} :
    read settings value = .error rejection ↔ Fault value rejection := by
  constructor
  · intro h
    cases hmessage : Message.read value with
    | error other =>
        simp only [read, hmessage, Except.error.injEq] at h
        subst h
        exact fault_of_read_eq_error hmessage
    | ok message =>
        obtain ⟨rfl, hrole⟩ := Message.read_eq_ok_iff.mp hmessage
        rw [read_of_speaksAs hrole] at h
        exact fault_of_ofMessage hrole h
  · intro h
    cases h with
    | notAnObject hvalue =>
        have hnone : value.fields? = none := Json.fields?_eq_none_iff.mpr hvalue
        simp only [read, Message.read, hnone]
    | @missingRole fields hrole =>
        have hnone : fields.text? "role" = none := Json.Fields.text?_eq_none_iff.mpr hrole
        simp only [read, Message.read, Json.fields?, hnone]
    | @unknownRole fields word hrole hword =>
        have htext : fields.text? "role" = some word := Json.Fields.text?_eq_some_iff.mpr hrole
        simp only [read, Message.read, Json.fields?, htext, ofText?_eq_none_iff.mpr hword]
    | @notText fields role hrole hguides htext =>
        have hguidance : Guidance.ofMessage ⟨role, fields⟩ = .error (.notText role) :=
          Guidance.ofMessage_eq_error_iff.mpr ⟨htext, rfl⟩
        rw [read_of_speaksAs hrole]
        rcases hguides with rfl | rfl <;> simp only [ofMessage, hguidance]
    | @missingResultId fields hrole hid =>
        have hnone : ToolResult.callId? fields = none :=
          ToolResult.callId?_eq_none_iff.mpr hid
        rw [read_of_speaksAs hrole]
        simp only [ofMessage, ToolResult.ofMessage, hnone]
    | @call fields before after entry _ hrole hentries hbefore hentry =>
        have hcalls : ToolCall.readFrom 0 (ToolCall.entries fields) = .error rejection := by
          rw [ToolCall.readFrom_eq_error_iff, ToolCall.entries, hentries]
          exact ⟨before, entry, after, rfl, hbefore, by rwa [Nat.zero_add]⟩
        rw [read_of_speaksAs hrole]
        simp only [ofMessage, hcalls]

end Contribution

/-- A message is well formed exactly if it has no fault. -/
theorem Message.wellFormed_iff {value : Json} :
    WellFormed value ↔ ∀ rejection, ¬ Fault value rejection := by
  -- Neither side speaks of settings, so any will do.
  have hok := @Contribution.exists_contributes_iff {} value
  have herror := @Contribution.read_eq_error_iff {} value
  simp only [← hok, ← herror, ← Contribution.read_eq_ok_iff]
  cases Contribution.read {} value <;> simp

/-- A conversation is taken in exactly if every message is well formed, and refused
exactly for the fault of the first message that is not. -/
theorem takeIn_refuses_first_fault (settings : Settings) (existing : String)
    (messages : List Json) :
    ((∃ intake, takeIn settings existing messages = .ok intake) ↔
      ∀ m ∈ messages, Message.WellFormed m) ∧
    (∀ rejection, takeIn settings existing messages = .error rejection ↔
      ∃ before m after, messages = before ++ m :: after ∧
        (∀ b ∈ before, Message.WellFormed b) ∧ Message.Fault m rejection) ∧
    ∀ m, Message.WellFormed m ↔ ∀ rejection, ¬ Message.Fault m rejection := by
  refine ⟨?_, ?_, fun _ => Message.wellFormed_iff⟩
  · constructor
    · rintro ⟨intake, h⟩
      obtain ⟨contributions, hcontributions, _⟩ := takeIn_eq_ok_iff.mp h
      intro m hm
      exact Contribution.exists_contributes_iff.mp
        (Listing.exists_forall₂_iff.mp ⟨contributions, hcontributions⟩ m hm)
    · intro h
      obtain ⟨contributions, hcontributions⟩ := Listing.exists_forall₂_iff.mpr fun m hm =>
        Contribution.exists_contributes_iff.mpr (h m hm)
      exact ⟨_, takeIn_eq_ok_iff.mpr ⟨contributions, hcontributions, rfl⟩⟩
  · intro rejection
    rw [takeIn_eq_error_iff, Contribution.readAll_eq_error_iff]
    simp only [Contribution.exists_contributes_iff, Contribution.read_eq_error_iff]

/-- Of two entries at fault the first decides. -/
example : takeIn {} "" [.object [("role", .string "assistant"), ("tool_calls", .array [
    .object [("id", .string "c")], .null])]] = .error (.missingFunction 0) :=
  rfl

end ChatIntake
