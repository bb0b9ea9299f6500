import ChatIntake.Proofs.Intake.Contribution
import ChatIntake.Proofs.Tool.Result

/-!
# The layout of the items

The items of a conversation are blocks, one for each message and in the order of the
messages. A block is told by the role of its message: only the assistant's may hold more
than one item, its turn first and then a call for each entry that the message lists.
-/

namespace ChatIntake

namespace Item

/-- The call that an item is, if it is one. -/
def call? : Item → Option ToolCall
  | call c => some c
  | _ => none

/-- The calls among items. -/
def calls (items : List Item) : List ToolCall := items.filterMap call?

theorem calls_append (items others : List Item) :
    calls (items ++ others) = calls items ++ calls others :=
  List.filterMap_append ..

@[simp] theorem calls_map_call (listed : List ToolCall) : calls (listed.map call) = listed := by
  rw [calls, List.filterMap_map]
  exact List.filterMap_some

end Item

namespace Message

/-- The entries for calls in a message of the assistant, which stand in the list under
`tool_calls`; any other message has none. -/
def callEntries : Json → List Json
  | .object fields =>
    if Keyed.get? fields "role" = some (.string "assistant") then
      match Keyed.get? fields "tool_calls" with
      | some (.array entries) => entries
      | _ => []
    else []
  | _ => []

/-- The items of a message: none for guidance, one turn for the user, one result for a
tool, and for the assistant at most one turn and after it the calls in their order. -/
inductive Block (settings : Settings) : Json → List Item → Prop
  | guidance {fields : Json.Fields} {role : Role} (hrole : SpeaksAs fields role)
      (hguides : role = .system ∨ role = .developer) : Block settings (.object fields) []
  | user {fields : Json.Fields} (hrole : SpeaksAs fields .user) :
      Block settings (.object fields) [.turn (Body.canonicalTurn settings fields)]
  | tool {fields : Json.Fields} {id : String} (hrole : SpeaksAs fields .tool)
      (hid : ToolResult.Answers fields id) :
      Block settings (.object fields)
        [.result ⟨id, ToolResult.answerText (fields.get? "content")⟩]
  | assistant {fields : Json.Fields} {turn : List Item} {calls : List ToolCall}
      {entries : List Json} (hrole : SpeaksAs fields .assistant)
      (hturn : turn = [] ∨ turn = [.turn (Body.canonicalTurn settings fields)])
      (hentries : ToolCall.Lists fields entries)
      (hcalls : List.Forall₂ ToolCall.Carries calls entries) :
      Block settings (.object fields) (turn ++ calls.map .call)

theorem callEntries_eq_nil {fields : Json.Fields} {role : Role} (hrole : SpeaksAs fields role)
    (hother : role ≠ .assistant) : callEntries (.object fields) = [] := by
  have hword : Keyed.get? fields "role" ≠ some (.string "assistant") := by
    intro hassistant
    exact hother (hrole.unique hassistant)
  simp only [callEntries, if_neg hword]

theorem callEntries_of_lists {fields : Json.Fields} {entries : List Json}
    (hrole : SpeaksAs fields .assistant) (h : ToolCall.Lists fields entries) :
    callEntries (.object fields) = entries := by
  have hword : Keyed.get? fields "role" = some (.string "assistant") := hrole
  cases h with
  | list hvalues => simp only [callEntries, if_pos hword, hvalues]
  | nothing hnone => simp only [callEntries, if_pos hword]

/-- The calls of a block are those that the entries of its message hold. -/
theorem Block.forall₂_carries {settings : Settings} {value : Json} {block : List Item}
    (h : Block settings value block) :
    List.Forall₂ ToolCall.Carries (Item.calls block) (callEntries value) := by
  cases h with
  | @guidance fields role hrole hguides =>
      have hother : role ≠ .assistant := by
        rintro rfl
        simp at hguides
      rw [callEntries_eq_nil hrole hother]
      exact .nil
  | user hrole | tool hrole =>
      rw [callEntries_eq_nil hrole (by decide)]
      exact .nil
  | @assistant fields turn calls entries hrole hturn hentries hcalls =>
      have hnone : Item.calls turn = [] := by
        rcases hturn with rfl | rfl <;> rfl
      rw [callEntries_of_lists hrole hentries, Item.calls_append, hnone, Item.calls_map_call,
        List.nil_append]
      exact hcalls

/-- Over a conversation, the calls follow the entries of one message after the other. -/
theorem forall₂_carries_of_blocks {settings : Settings} {messages : List Json}
    {blocks : List (List Item)} (h : List.Forall₂ (Block settings) messages blocks) :
    List.Forall₂ ToolCall.Carries (Item.calls blocks.flatten)
      (messages.flatMap callEntries) :=
  Listing.forall₂_filterMap_flatten (fun _ _ hblock => hblock.forall₂_carries) h

end Message

namespace Contribution

open Item Message

variable {settings : Settings} {value : Json} {contribution : Contribution}

/-- The calls that the entries of a message describe carry what the entries hold. -/
theorem forall₂_carries {entries : List Json} {calls : List ToolCall}
    (h : List.Forall₂ ToolCall.Describes entries calls) :
    List.Forall₂ ToolCall.Carries calls entries :=
  (h.imp fun _ _ hdescribes => hdescribes.carries.1).flip

/-- The items of a message make up its block. -/
theorem Contributes.block (h : Contributes settings value contribution) :
    Block settings value contribution.items := by
  cases h with
  | guidance hrole hguides => exact .guidance hrole hguides
  | user hrole => exact .user hrole
  | assistant hrole hentries hcalls =>
      exact .assistant hrole (assistantTurn_cases settings _) hentries (forall₂_carries hcalls)
  | tool hrole hid => exact .tool hrole (ToolResult.callId?_eq_some_iff.mp hid)

/-- No call or result leaves out what tells which call it is about. -/
theorem Contributes.named (h : Contributes settings value contribution) :
    (∀ c, call c ∈ contribution.items → c.id ≠ "" ∧ c.name ≠ "") ∧
      ∀ r, result r ∈ contribution.items → r.callId ≠ "" := by
  cases h with
  | guidance | user => simp
  | @assistant fields entries calls hrole _ hcalls =>
      have hnamed : ∀ c ∈ calls, c.id ≠ "" ∧ c.name ≠ "" := by
        intro c hc
        obtain ⟨entry, hentry⟩ := Listing.exists_forall₂_iff.mp ⟨_, hcalls.flip⟩ c hc
        exact hentry.carries.2
      rcases assistantTurn_cases settings fields with hturn | hturn
      · simpa [hturn] using hnamed
      · simpa [hturn] using hnamed
  | tool hrole hid =>
      have hfull := (ToolResult.callId?_eq_some_iff.mp hid).ne_empty
      simpa using hfull

end Contribution

/-- Items are the blocks of messages, in order, and each block has a property beside its
message. -/
def Message.Blockwise (settings : Settings) (P : Json → List Item → Prop)
    (messages : List Json) (items : List Item) : Prop :=
  ∃ blocks, List.Forall₂ (fun message block => Block settings message block ∧ P message block)
    messages blocks ∧ items = blocks.flatten

/-- What holds of each message and its items holds of a conversation block by block. -/
theorem blockwise_of_takeIn {settings : Settings} {P : Json → List Item → Prop}
    (hP : ∀ value contribution, Contribution.Contributes settings value contribution →
      P value contribution.items)
    {existing : String} {messages : List Json} {intake : Intake}
    (h : takeIn settings existing messages = .ok intake) :
    Message.Blockwise settings P messages intake.items := by
  obtain ⟨contributions, hcontributions, rfl⟩ := takeIn_eq_ok_iff.mp h
  refine ⟨contributions.map Contribution.items, ?_, List.flatMap_def ..⟩
  rw [List.forall₂_map_right_iff]
  exact hcontributions.imp fun _ _ hcontributes => ⟨hcontributes.block, hP _ _ hcontributes⟩

/-- How the items of a conversation lie. -/
structure Layout (settings : Settings) (messages : List Json) (items : List Item) : Prop where
  /-- They are the blocks of the messages, one after the other. -/
  blocks : ∃ blocks, List.Forall₂ (Message.Block settings) messages blocks ∧
    items = blocks.flatten
  /-- Their calls are those of the entries of all messages, each once and in order. -/
  calls : List.Forall₂ ToolCall.Carries (Item.calls items) (messages.flatMap Message.callEntries)
  /-- A call has an identifier and a name. -/
  call_named : ∀ c, Item.call c ∈ items → c.id ≠ "" ∧ c.name ≠ ""
  /-- A result has an identifier. -/
  result_named : ∀ r, Item.result r ∈ items → r.callId ≠ ""

end ChatIntake
