import ChatIntake.Intake
import ChatIntake.Proofs.Conversation.Guidance
import ChatIntake.Proofs.Tool.Call

/-!
# What messages contribute

The contribution of a message by its role, as a relation between the fields of the
message and what it gives. A conversation is taken in exactly if each message has a
contribution, and the contributions are then put together in order.
-/

namespace ChatIntake

namespace Message

/-- The fields of a message name a role. -/
def SpeaksAs (fields : Json.Fields) (role : Role) : Prop :=
  fields.get? "role" = some (.string role.text)

/-- No message names two roles. -/
theorem SpeaksAs.unique {fields : Json.Fields} {a b : Role} (ha : SpeaksAs fields a)
    (hb : SpeaksAs fields b) : a = b := by
  rw [SpeaksAs, ha, Option.some.injEq, Json.string.injEq] at hb
  exact Role.text_injective hb

theorem read_object {fields : Json.Fields} {role : Role} (hrole : SpeaksAs fields role) :
    read (.object fields) = .ok ⟨role, fields⟩ := by
  have htext : fields.text? "role" = some role.text := Json.Fields.text?_eq_some_iff.mpr hrole
  simp only [read, Json.fields?, htext, Role.ofText?_eq_some_iff.mpr rfl]

/-- A value is read as a message exactly if it is an object that names its role. -/
theorem read_eq_ok_iff {value : Json} {message : Message} :
    read value = .ok message ↔
      value = .object message.fields ∧ SpeaksAs message.fields message.role := by
  constructor
  · intro h
    simp only [read] at h
    split at h
    · cases h
    · next fields hfields =>
        split at h
        · cases h
        · next word hword =>
            split at h
            · cases h
            · next role hrole =>
                cases h
                rw [Role.ofText?_eq_some_iff.mp hrole] at hword
                exact ⟨Json.fields?_eq_some_iff.mp hfields,
                  Json.Fields.text?_eq_some_iff.mp hword⟩
  · rintro ⟨rfl, hrole⟩
    exact read_object hrole

end Message

namespace Contribution

open Message

/-- What a message contributes: the leaves of its guidance, the turn of the user, the
turn of the assistant if it is substantial with the calls after it, or a result. -/
inductive Contributes (settings : Settings) : Json → Contribution → Prop
  | guidance {fields : Json.Fields} {role : Role} {texts : List String}
      (hrole : SpeaksAs fields role) (hguides : role = .system ∨ role = .developer)
      (htexts : Guidance.Leaves (fields.get? "content") texts) :
      Contributes settings (.object fields) ⟨Text.joinLines texts, []⟩
  | user {fields : Json.Fields} (hrole : SpeaksAs fields .user) :
      Contributes settings (.object fields) ⟨"", [.turn (Body.canonicalTurn settings fields)]⟩
  | assistant {fields : Json.Fields} {entries : List Json} {calls : List ToolCall}
      (hrole : SpeaksAs fields .assistant) (hentries : ToolCall.Lists fields entries)
      (hcalls : List.Forall₂ ToolCall.Describes entries calls) :
      Contributes settings (.object fields)
        ⟨"", assistantTurn settings fields ++ calls.map .call⟩
  | tool {fields : Json.Fields} {id : String} (hrole : SpeaksAs fields .tool)
      (hid : ToolResult.callId? fields = some id) :
      Contributes settings (.object fields)
        ⟨"", [.result ⟨id, ToolResult.answerText (fields.get? "content")⟩]⟩

theorem assistantTurn_cases (settings : Settings) (fields : Json.Fields) :
    assistantTurn settings fields = [] ∨
      assistantTurn settings fields = [.turn (Body.canonicalTurn settings fields)] := by
  simp only [assistantTurn]
  split
  · exact .inr rfl
  · exact .inl rfl

variable {settings : Settings}

/-- The contribution read from a value of known role is that of its fields. -/
theorem read_of_speaksAs {fields : Json.Fields} {role : Role} (hrole : SpeaksAs fields role) :
    read settings (.object fields) = ofMessage settings ⟨role, fields⟩ := by
  simp only [read, read_object hrole]

theorem contributes_of_ofMessage {fields : Json.Fields} {role : Role}
    {contribution : Contribution} (hrole : SpeaksAs fields role)
    (h : ofMessage settings ⟨role, fields⟩ = .ok contribution) :
    Contributes settings (.object fields) contribution := by
  cases role with
  | system | developer =>
      simp only [ofMessage] at h
      split at h
      · cases h
      · next guidance hguidance =>
          cases h
          obtain ⟨texts, htexts, rfl⟩ := Guidance.ofMessage_eq_ok_iff.mp hguidance
          exact .guidance hrole (by simp) htexts
  | user =>
      cases h
      exact .user hrole
  | assistant =>
      simp only [ofMessage] at h
      split at h
      · cases h
      · next calls hcalls =>
          cases h
          obtain ⟨entries, hentries, hcalls⟩ := ToolCall.readFrom_entries_eq_ok_iff.mp hcalls
          exact .assistant hrole hentries hcalls
  | tool =>
      simp only [ofMessage, ToolResult.ofMessage] at h
      cases hid : ToolResult.callId? fields with
      | none =>
          rw [hid] at h
          cases h
      | some id =>
          rw [hid] at h
          cases h
          exact .tool hrole hid

/-- A message is read exactly as what it contributes. -/
theorem read_eq_ok_iff {value : Json} {contribution : Contribution} :
    read settings value = .ok contribution ↔ Contributes settings value contribution := by
  constructor
  · intro h
    cases hmessage : Message.read value with
    | error rejection => simp [read, hmessage] at h
    | ok message =>
        obtain ⟨rfl, hrole⟩ := Message.read_eq_ok_iff.mp hmessage
        rw [read_of_speaksAs hrole] at h
        exact contributes_of_ofMessage hrole h
  · intro h
    cases h with
    | @guidance fields role texts hrole hguides htexts =>
        have hmessage : Guidance.ofMessage ⟨role, fields⟩ = .ok (Text.joinLines texts) :=
          Guidance.ofMessage_eq_ok_iff.mpr ⟨texts, htexts, rfl⟩
        rw [read_of_speaksAs hrole]
        rcases hguides with rfl | rfl <;> simp only [ofMessage, hmessage]
    | user hrole =>
        rw [read_of_speaksAs hrole]
        rfl
    | assistant hrole hentries hcalls =>
        rw [read_of_speaksAs hrole]
        simp only [ofMessage, ToolCall.readFrom_entries_eq_ok_iff.mpr ⟨_, hentries, hcalls⟩]
    | tool hrole hid =>
        rw [read_of_speaksAs hrole]
        simp only [ofMessage, ToolResult.ofMessage, hid, Message.body?]

theorem readAll_eq_readEach (index : Nat) (values : List Json) :
    readAll settings values = Listing.readEach (fun _ => read settings) index values := by
  induction values generalizing index with
  | nil => rfl
  | cons value values ih =>
      simp only [readAll, Listing.readEach, ih (index + 1)]
      cases read settings value with
      | error rejection => rfl
      | ok contribution =>
          cases Listing.readEach (fun _ => read settings) (index + 1) values <;> rfl

/-- Messages are read exactly as what each of them contributes. -/
theorem readAll_eq_ok_iff {values : List Json} {contributions : List Contribution} :
    readAll settings values = .ok contributions ↔
      List.Forall₂ (Contributes settings) values contributions := by
  rw [readAll_eq_readEach 0]
  apply Listing.readEach_eq_ok_iff
  exact fun _ _ _ => read_eq_ok_iff

/-- Messages are refused exactly for the first that contributes nothing. -/
theorem readAll_eq_error_iff {values : List Json} {rejection : Rejection} :
    readAll settings values = .error rejection ↔
      ∃ before value after, values = before ++ value :: after ∧
        (∀ b ∈ before, ∃ contribution, Contributes settings b contribution) ∧
        read settings value = .error rejection := by
  rw [readAll_eq_readEach 0]
  apply Listing.readEach_eq_error_iff
  exact fun _ _ _ => read_eq_ok_iff

theorem readAll_append (values others : List Json) :
    readAll settings (values ++ others) =
      match readAll settings values with
      | .error rejection => .error rejection
      | .ok contributions =>
        match readAll settings others with
        | .error rejection => .error rejection
        | .ok later => .ok (contributions ++ later) := by
  rw [readAll_eq_readEach 0, Listing.readEach_append, ← readAll_eq_readEach,
    ← readAll_eq_readEach]
  cases readAll settings values with
  | error rejection => rfl
  | ok contributions => cases readAll settings others <;> rfl

end Contribution

/-- A conversation is taken in exactly as the contributions of its messages. -/
theorem takeIn_eq_ok_iff {settings : Settings} {existing : String} {messages : List Json}
    {intake : Intake} :
    takeIn settings existing messages = .ok intake ↔
      ∃ contributions, List.Forall₂ (Contribution.Contributes settings) messages contributions ∧
        intake = .ofContributions existing contributions := by
  simp only [takeIn, ← Contribution.readAll_eq_ok_iff]
  cases Contribution.readAll settings messages with
  | error rejection => simp
  | ok contributions => simp [eq_comm]

theorem takeIn_eq_error_iff {settings : Settings} {existing : String} {messages : List Json}
    {rejection : Rejection} :
    takeIn settings existing messages = .error rejection ↔
      Contribution.readAll settings messages = .error rejection := by
  simp only [takeIn]
  cases Contribution.readAll settings messages <;> simp

end ChatIntake
