import ChatIntake.Proofs.Intake.Layout
import ChatIntake.Proofs.Json.Spacing

/-!
# Structure kept in texts

Arguments of a call and answers of a tool that are lists or objects become texts. Each of
these texts is compact, and reading it gives back the very value that the message held.
-/

namespace ChatIntake

namespace Json

/-- A text that is a document of a value, with no white space outside its strings. -/
structure Encodes (text : String) (value : Json) : Prop where
  parse?_eq : parse? text = some value
  spaceFree : SpaceFree .outside text.toList

/-- A value that has parts. -/
inductive Structured : Json → Prop
  | array (elements : List Json) : Structured (.array elements)
  | object (fields : Fields) : Structured (.object fields)

theorem encodes_compact {value : Json} (h : Restorable depthMax value) :
    Encodes value.compact value :=
  ⟨parse?_compact h, spaceFree_compact h⟩

end Json

namespace ToolCall

/-- The arguments in an entry for a call, before they are made a text. -/
inductive GivesArguments : Json → Json → Prop
  | intro {entry function : Json.Fields} {arguments : Json}
      (hfunction : entry.get? "function" = some (.object function))
      (harguments : function.get? "arguments" = some arguments) :
      GivesArguments (.object entry) arguments

/-- A call that keeps the arguments of an entry in its text, if they have parts. -/
def KeepsArguments (call : ToolCall) (entry : Json) : Prop :=
  ∀ arguments, GivesArguments entry arguments → arguments.Structured →
    arguments.Restorable Json.depthMax → Json.Encodes call.arguments arguments

theorem argumentsAs_structured {value : Json} {text : String} (hvalue : value.Structured)
    (h : ArgumentsAs (some value) text) : text = value.compact := by
  cases h with
  | encoded => rfl
  | null | text => cases hvalue

theorem Carries.keepsArguments {call : ToolCall} {entry : Json} (h : Carries call entry) :
    KeepsArguments call entry := by
  intro arguments hgives hstructured hrestorable
  cases h with
  | intro _ hfunction _ harguments =>
      cases hgives with
      | intro hfunction' harguments' =>
          rw [hfunction, Option.some.injEq, Json.object.injEq] at hfunction'
          rw [hfunction', harguments'] at harguments
          rw [argumentsAs_structured hstructured harguments]
          exact Json.encodes_compact hrestorable

end ToolCall

namespace ToolResult

/-- The elements of an answer that are texts of their own. -/
inductive Textual : Json → Prop
  | string (s : String) : Textual (.string s)
  | object {part : Json.Fields} {s : String} (htext : part.get? "text" = some (.string s)) :
      Textual (.object part)

/-- The answers with parts of which none is a text. -/
inductive Textless : Json → Prop
  | array {elements : List Json} (helements : ∀ e ∈ elements, ¬ Textual e) :
      Textless (.array elements)
  | object {part : Json.Fields} (hpart : ¬ Textual (.object part)) : Textless (.object part)

/-- A result that keeps the body it answers with in its text, if that has parts and none
of them is a text. -/
def KeepsBody (result : ToolResult) (body? : Option Json) : Prop :=
  ∀ body, body? = some body → Textless body → body.Restorable Json.depthMax →
    Json.Encodes result.output body

theorem text?_eq_none_of_not_textual {element : Json} (h : ¬ Textual element) :
    text? element = none := by
  cases element with
  | string s => exact absurd (.string s) h
  | object part =>
      rw [text?, Json.Fields.text?_eq_none_iff]
      exact fun s hs => h (.object hs)
  | null | bool | number | array => rfl

theorem answerText_of_textless {body : Json} (h : Textless body) :
    answerText (some body) = body.compact := by
  cases h with
  | @array elements helements =>
      have hnone : elements.filterMap text? = [] :=
        List.filterMap_eq_nil_iff.mpr fun e he => text?_eq_none_of_not_textual (helements e he)
      simp only [answerText, hnone, List.isEmpty_nil, if_true]
  | object hpart =>
      simp only [answerText, text?_eq_none_of_not_textual hpart, Option.getD_none]

theorem keepsBody_answerText (id : String) (body? : Option Json) :
    KeepsBody ⟨id, answerText body?⟩ body? := by
  rintro body rfl htextless hrestorable
  rw [answerText_of_textless htextless]
  exact Json.encodes_compact hrestorable

end ToolResult

/-- The result that an item is, if it is one. -/
def Item.result? : Item → Option ToolResult
  | result r => some r
  | _ => none

/-- The results among items. -/
def Item.results (items : List Item) : List ToolResult := items.filterMap result?

namespace Message

/-- What a tool message answers with; any other message answers nothing. -/
def answers : Json → List (Option Json)
  | .object fields =>
    if Keyed.get? fields "role" = some (.string "tool") then [Keyed.get? fields "content"] else []
  | _ => []

theorem answers_of_speaksAs {fields : Json.Fields} {role : Role} (hrole : SpeaksAs fields role) :
    answers (.object fields) = if role = .tool then [fields.get? "content"] else [] := by
  rw [SpeaksAs] at hrole
  cases role <;> simp [answers, hrole, Role.text]

/-- The results of a block keep what its message answers with. -/
theorem Block.forall₂_keepsBody {settings : Settings} {value : Json} {block : List Item}
    (h : Block settings value block) :
    List.Forall₂ ToolResult.KeepsBody (Item.results block) (answers value) := by
  cases h with
  | @guidance fields role hrole hguides =>
      have hrole' : role ≠ .tool := by
        rintro rfl
        simp at hguides
      rw [answers_of_speaksAs hrole, if_neg hrole']
      exact .nil
  | user hrole =>
      rw [answers_of_speaksAs hrole, if_neg (by decide)]
      exact .nil
  | @assistant fields turn calls entries hrole hturn _ _ =>
      have hnone : Item.results (turn ++ calls.map .call) = [] := by
        apply List.filterMap_eq_nil_iff.mpr
        rcases hturn with rfl | rfl <;> simp [Item.result?]
      rw [answers_of_speaksAs hrole, if_neg (by decide), hnone]
      exact .nil
  | tool hrole _ =>
      rw [answers_of_speaksAs hrole, if_pos rfl]
      exact .cons (ToolResult.keepsBody_answerText _ _) .nil

end Message

theorem exists_blocks_of_takeIn {settings : Settings} {existing : String} {messages : List Json}
    {intake : Intake} (h : takeIn settings existing messages = .ok intake) :
    ∃ blocks, List.Forall₂ (Message.Block settings) messages blocks ∧
      intake.items = blocks.flatten := by
  obtain ⟨blocks, hblocks, hitems⟩ :=
    blockwise_of_takeIn (P := fun _ _ => True) (fun _ _ _ => trivial) h
  exact ⟨blocks, hblocks.imp fun _ _ hblock => hblock.1, hitems⟩

/-- Every call of a conversation keeps the arguments of its entry, and every result the
body of its message, wherever these are lists or objects that become encoded texts. -/
theorem takeIn_keeps_structure {settings : Settings} {existing : String} {messages : List Json}
    {intake : Intake} (h : takeIn settings existing messages = .ok intake) :
    List.Forall₂ ToolCall.KeepsArguments (Item.calls intake.items)
        (messages.flatMap Message.callEntries) ∧
      List.Forall₂ ToolResult.KeepsBody (Item.results intake.items)
        (messages.flatMap Message.answers) := by
  obtain ⟨blocks, hblocks, hitems⟩ := exists_blocks_of_takeIn h
  rw [hitems]
  constructor
  · exact (Message.forall₂_carries_of_blocks hblocks).imp fun _ _ hcarries =>
      hcarries.keepsArguments
  · exact Listing.forall₂_filterMap_flatten
      (fun _ _ hblock => hblock.forall₂_keepsBody) hblocks

/-- Arguments with text to escape, and with keys that are not in alphabetic order. -/
def forecastQuery : Json := .object [
  ("place", .string "\"Zürich\"\n"),
  ("days", .array [.number (.int (-1)), .number (.int 18446744073709551615)]),
  ("also", .object [])]

/-- A table without a text in it. -/
def forecastTable : Json := .array [.null, .object [("text", .bool true)], .array []]

/-- A call with these arguments, and an answer with this table. -/
def forecastTalk : List Json := [
  .object [("role", .string "assistant"), ("tool_calls", .array [.object [
    ("id", .string "c"),
    ("function", .object [("name", .string "f"), ("arguments", forecastQuery)])]])],
  .object [("role", .string "tool"), ("call_id", .string "c"), ("content", forecastTable)]]

theorem restorable_forecastQuery : forecastQuery.Restorable Json.depthMax := by
  refine .object (by decide) ?_
  simp only [List.forall_mem_cons, List.not_mem_nil, false_implies, implies_true, and_true]
  refine ⟨.string _, .array ?_, .object (by decide) (by simp)⟩
  simp only [List.forall_mem_cons, List.not_mem_nil, false_implies, implies_true, and_true]
  exact ⟨.whole (by decide) (by decide), .whole (by decide) (by decide)⟩

theorem restorable_forecastTable : forecastTable.Restorable Json.depthMax := by
  refine .array ?_
  simp only [List.forall_mem_cons, List.not_mem_nil, false_implies, implies_true, and_true]
  refine ⟨.null, .object (by decide) ?_, .array (by simp)⟩
  simp only [List.forall_mem_cons, List.not_mem_nil, false_implies, implies_true, and_true]
  exact .bool true

theorem textless_forecastTable : ToolResult.Textless forecastTable := by
  apply ToolResult.Textless.array
  simp only [List.forall_mem_cons, List.not_mem_nil, false_implies, implies_true, and_true]
  refine ⟨nofun, ?_, nofun⟩
  intro htextual
  cases htextual with
  | object htext => cases htext

theorem takeIn_keeps_structure_forecastTalk :
    ∃ call result intake, takeIn {} "" forecastTalk = .ok intake ∧
      intake.items = [.call call, .result result] ∧
      Json.Encodes call.arguments forecastQuery ∧ Json.Encodes result.output forecastTable := by
  refine ⟨_, _, _, rfl, rfl, ?_⟩
  have hkept := takeIn_keeps_structure (show takeIn {} "" forecastTalk = .ok _ from rfl)
  constructor
  · cases hkept.1 with
    | cons hcall _ => exact hcall _ (.intro rfl rfl) (.object _) restorable_forecastQuery
  · cases hkept.2 with
    | cons hresult _ => exact hresult _ rfl textless_forecastTable restorable_forecastTable

end ChatIntake
