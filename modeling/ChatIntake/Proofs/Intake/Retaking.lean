import ChatIntake.Proofs.Content.Canonical
import ChatIntake.Proofs.Intake.Faults

/-!
# Taking items in again

The items of a conversation are messages once more if they are turns; calls and
results name no role. A turn that is taken in again, under whatever settings, comes
back as it is, and the assistant's turn brings the calls that it lists after it.
-/

namespace ChatIntake

namespace Item

/-- The turns among items. -/
def turns (items : List Item) : List Item := items.filter fun item => item.kind = .turn

theorem turns_append (items others : List Item) :
    turns (items ++ others) = turns items ++ turns others :=
  List.filter_append ..

theorem turns_eq_self_iff {items : List Item} :
    turns items = items ↔ ∀ item ∈ items, item.kind = .turn := by
  simp [turns, List.filter_eq_self]

@[simp] theorem turns_map_call (calls : List ToolCall) : turns (calls.map call) = [] := by
  simp [turns, kind]

/-- What a turn gives when it is taken in again: itself, and after the assistant's
turn the calls that it lists. -/
inductive Unfolds : Item → List Item → Prop
  | user {fields : Json.Fields} (hrole : Message.SpeaksAs fields .user) :
      Unfolds (.turn fields) [.turn fields]
  | assistant {fields : Json.Fields} {entries : List Json} {calls : List ToolCall}
      (hrole : Message.SpeaksAs fields .assistant) (hentries : ToolCall.Lists fields entries)
      (hcalls : List.Forall₂ ToolCall.Describes entries calls) :
      Unfolds (.turn fields) (.turn fields :: calls.map .call)

/-- An item unfolds to a block that it contributes as a message under any settings. -/
def Retakes (item : Item) (block : List Item) : Prop :=
  Unfolds item block ∧
    ∀ settings, Contribution.Contributes settings item.toJson ⟨"", block⟩

/-- Calls and results have no role. -/
theorem fault_toJson {item : Item} (h : item.kind ≠ .turn) :
    Message.Fault item.toJson .missingRole := by
  cases item with
  | turn fields => exact absurd rfl h
  | call c => exact .missingRole (by simp [Keyed.get?])
  | result r => exact .missingRole (by simp [Keyed.get?])

end Item

namespace Contribution

open Item Message

/-- What is left of a contribution when only its turns are taken in again: nothing
without a turn, and otherwise all but results. -/
def retained (contribution : Contribution) : List Item :=
  if turns contribution.items = [] then []
  else contribution.items.filter fun item => item.kind ≠ .result

theorem speaksAs_canonicalTurn {fields : Json.Fields} {role : Role} (settings : Settings)
    (hrole : SpeaksAs fields role) : SpeaksAs (Body.canonicalTurn settings fields) role := by
  rw [SpeaksAs, Body.get?_canonicalTurn_of_ne settings fields (by decide)]
  exact hrole

theorem lists_canonicalTurn {fields : Json.Fields} {entries : List Json} (settings : Settings)
    (h : ToolCall.Lists fields entries) :
    ToolCall.Lists (Body.canonicalTurn settings fields) entries :=
  h.congr (Body.get?_canonicalTurn_of_ne settings fields (by decide))

theorem assistantTurn_canonicalTurn (first second : Settings) (fields : Json.Fields) :
    assistantTurn second (Body.canonicalTurn first fields) = assistantTurn first fields := by
  simp only [assistantTurn, Body.canonicalTurn_canonicalTurn]

/-- A turn of the user comes back as it is. -/
theorem retakes_user {fields : Json.Fields} (settings : Settings)
    (hrole : SpeaksAs fields .user) :
    Retakes (.turn (Body.canonicalTurn settings fields))
      [.turn (Body.canonicalTurn settings fields)] := by
  have hturn := speaksAs_canonicalTurn settings hrole
  refine ⟨.user hturn, fun second => ?_⟩
  have h : Contributes second (.object (Body.canonicalTurn settings fields)) _ := .user hturn
  rwa [Body.canonicalTurn_canonicalTurn] at h

/-- A turn of the assistant comes back as it is, with its calls. It is substantial
again because its body is in canonical form already. -/
theorem retakes_assistant {fields : Json.Fields} {entries : List Json} {calls : List ToolCall}
    {settings : Settings} (hrole : SpeaksAs fields .assistant)
    (hentries : ToolCall.Lists fields entries)
    (hcalls : List.Forall₂ ToolCall.Describes entries calls)
    (hsubstantial : assistantTurn settings fields =
      [.turn (Body.canonicalTurn settings fields)]) :
    Retakes (.turn (Body.canonicalTurn settings fields))
      (.turn (Body.canonicalTurn settings fields) :: calls.map .call) := by
  have hturn := speaksAs_canonicalTurn settings hrole
  have hlists := lists_canonicalTurn settings hentries
  refine ⟨.assistant hturn hlists hcalls, fun second => ?_⟩
  have h : Contributes second (.object (Body.canonicalTurn settings fields)) _ :=
    .assistant hturn hlists hcalls
  rwa [assistantTurn_canonicalTurn, hsubstantial] at h

theorem retained_eq_nil {contribution : Contribution} (h : turns contribution.items = []) :
    contribution.retained = [] :=
  if_pos h

theorem retained_eq_items {contribution : Contribution} (hturn : turns contribution.items ≠ [])
    (hresult : ∀ item ∈ contribution.items, item.kind ≠ .result) :
    contribution.retained = contribution.items := by
  rw [retained, if_neg hturn, List.filter_eq_self]
  simpa using hresult

/-- The turns of a contribution come back in blocks that make up what is left of it. -/
theorem exists_blocks {first : Settings} {value : Json} {contribution : Contribution}
    (h : Contributes first value contribution) :
    ∃ blocks, List.Forall₂ Retakes (turns contribution.items) blocks ∧
      blocks.flatten = contribution.retained := by
  cases h with
  | guidance => exact ⟨[], .nil, rfl⟩
  | user hrole => exact ⟨[_], .cons (retakes_user first hrole) .nil, rfl⟩
  | @assistant fields entries calls hrole hentries hcalls =>
      rcases assistantTurn_cases first fields with hturn | hturn
      · rw [hturn, List.nil_append]
        refine ⟨[], ?_, (retained_eq_nil (turns_map_call calls)).symm⟩
        rw [turns_map_call]
        exact .nil
      · have hturns : turns (assistantTurn first fields ++ calls.map call) =
            [turn (Body.canonicalTurn first fields)] := by
          rw [turns_append, turns_map_call, hturn]
          rfl
        refine ⟨[turn (Body.canonicalTurn first fields) :: calls.map call], ?_, ?_⟩
        · rw [hturns]
          exact .cons (retakes_assistant hrole hentries hcalls hturn) .nil
        · rw [retained_eq_items (by simp [hturns]) (by simp [hturn, kind])]
          simp [hturn]
  | tool => exact ⟨[], .nil, rfl⟩

/-- The same holds of the contributions of a whole conversation. -/
theorem exists_blocks_of_forall₂ {first : Settings} {messages : List Json}
    {contributions : List Contribution}
    (h : List.Forall₂ (Contributes first) messages contributions) :
    ∃ blocks, List.Forall₂ Retakes (turns (contributions.flatMap items)) blocks ∧
      blocks.flatten = contributions.flatMap retained := by
  induction h with
  | nil => exact ⟨[], .nil, rfl⟩
  | cons hvalue _ ih =>
      obtain ⟨blocks, hblocks, hretained⟩ := exists_blocks hvalue
      obtain ⟨others, hothers, hrest⟩ := ih
      refine ⟨blocks ++ others, ?_, ?_⟩
      · rw [List.flatMap_cons, turns_append]
        exact List.rel_append hblocks hothers
      · rw [List.flatten_append, List.flatMap_cons, hretained, hrest]

theorem retained_eq_self {contribution : Contribution}
    (h : ∀ item ∈ contribution.items, item.kind = .turn) :
    contribution.retained = contribution.items := by
  have hturns := turns_eq_self_iff.mpr h
  by_cases hnone : contribution.items = []
  · rw [hnone] at hturns ⊢
    rw [retained_eq_nil (by rwa [hnone])]
  · refine retained_eq_items (by rwa [hturns]) fun item hitem => ?_
    rw [h item hitem]
    decide

theorem flatMap_retained_eq_items {contributions : List Contribution}
    (h : ∀ item ∈ contributions.flatMap items, item.kind = .turn) :
    contributions.flatMap retained = contributions.flatMap items := by
  apply List.flatMap_congr
  intro contribution hcontribution
  apply retained_eq_self
  intro item hitem
  exact h item (List.mem_flatMap.mpr ⟨contribution, hcontribution, hitem⟩)

end Contribution

/-- Turns are taken in again as their blocks, one after the other. -/
theorem takeIn_turns {items : List Item} {blocks : List (List Item)}
    (h : List.Forall₂ Item.Retakes items blocks) (settings : Settings) (instructions : String) :
    takeIn settings instructions (items.map Item.toJson) = .ok ⟨instructions, blocks.flatten⟩ := by
  rw [takeIn_eq_ok_iff]
  refine ⟨blocks.map (Contribution.mk ""), ?_, ?_⟩
  · rw [List.forall₂_map_left_iff, List.forall₂_map_right_iff]
    exact h.imp fun _ _ hretakes => hretakes.2 settings
  · have hguidance : Text.joinLines
        (instructions :: (blocks.map (Contribution.mk "")).map Contribution.guidance) =
          instructions := by
      rw [Text.joinLines_cons, Text.joinLines_of_forall_empty (by simp), Text.beside_empty]
    have hitems : (blocks.map (Contribution.mk "")).flatMap Contribution.items =
        blocks.flatten := by
      rw [List.flatMap_map]
      exact List.flatMap_id
    rw [Intake.ofContributions, hguidance, hitems]

/-- An item is a message again exactly if it is a turn. -/
theorem Item.wellFormed_toJson_iff {items : List Item} {blocks : List (List Item)}
    (h : List.Forall₂ Retakes (turns items) blocks) {item : Item} (hitem : item ∈ items) :
    Message.WellFormed item.toJson ↔ item.kind = .turn := by
  constructor
  · intro hformed
    by_contra hkind
    exact Message.wellFormed_iff.mp hformed _ (fault_toJson hkind)
  · intro hkind
    have hturn : item ∈ turns items := List.mem_filter.mpr ⟨hitem, decide_eq_true hkind⟩
    obtain ⟨block, hblock⟩ := Listing.exists_forall₂_iff.mp ⟨blocks, h⟩ item hturn
    exact Contribution.exists_contributes_iff.mp ⟨_, hblock.2 {}⟩

/-- Items that are taken in again are all turns. -/
theorem kind_of_takeIn_items {items : List Item} {blocks : List (List Item)}
    (h : List.Forall₂ Item.Retakes (Item.turns items) blocks) {settings : Settings}
    {instructions : String} {again : Intake}
    (hagain : takeIn settings instructions (items.map Item.toJson) = .ok again) :
    ∀ item ∈ items, item.kind = .turn := by
  intro item hitem
  obtain ⟨contributions, hcontributions, _⟩ := takeIn_eq_ok_iff.mp hagain
  have hcontributes := Listing.exists_forall₂_iff.mp ⟨_, hcontributions⟩ item.toJson
    (List.mem_map_of_mem hitem)
  rw [Contribution.exists_contributes_iff] at hcontributes
  exact (Item.wellFormed_toJson_iff h hitem).mp hcontributes

/-- Items that are not taken in again lack a role, whatever else they lack. -/
theorem rejection_of_takeIn_items {items : List Item} {blocks : List (List Item)}
    (h : List.Forall₂ Item.Retakes (Item.turns items) blocks) {settings : Settings}
    {instructions : String} {rejection : Rejection}
    (herror : takeIn settings instructions (items.map Item.toJson) = .error rejection) :
    rejection = .missingRole := by
  rw [takeIn_eq_error_iff, Contribution.readAll_eq_error_iff] at herror
  obtain ⟨before, value, after, hsplit, _, hvalue⟩ := herror
  have hmem : value ∈ items.map Item.toJson := by
    rw [hsplit]
    exact List.mem_append_right before List.mem_cons_self
  obtain ⟨item, hitem, rfl⟩ := List.mem_map.mp hmem
  have hkind : item.kind ≠ .turn := by
    intro hturn
    have hformed := (Item.wellFormed_toJson_iff h hitem).mpr hturn
    exact Message.wellFormed_iff.mp hformed rejection (Contribution.read_eq_error_iff.mp hvalue)
  rw [Contribution.read_eq_error_iff.mpr (Item.fault_toJson hkind)] at hvalue
  exact (Except.error.inj hvalue).symm

/-- What becomes of the items of a conversation when they are taken in as messages,
under settings and after instructions of any kind. -/
structure Retaken (first second : Settings) (messages : List Json) (items : List Item)
    (instructions : String) : Prop where
  /-- All items are taken in exactly if all of them are turns. -/
  accepted_iff :
    (∃ again, takeIn second instructions (items.map Item.toJson) = .ok again) ↔
      ∀ item ∈ items, item.kind = .turn
  /-- They are refused for nothing but a missing role. -/
  rejection_eq : ∀ rejection,
    takeIn second instructions (items.map Item.toJson) = .error rejection →
      rejection = .missingRole
  /-- The turns alone come back in order, each followed by the calls that it lists. -/
  turns_unfold : ∃ blocks, List.Forall₂ Item.Unfolds (Item.turns items) blocks ∧
    takeIn second instructions ((Item.turns items).map Item.toJson) =
      .ok ⟨instructions, blocks.flatten⟩
  /-- Together they are the items less all results, and less the calls of those
  messages that gave no turn. -/
  turns_retained : ∃ contributions,
    List.Forall₂ (Contribution.Contributes first) messages contributions ∧
    items = contributions.flatMap Contribution.items ∧
    takeIn second instructions ((Item.turns items).map Item.toJson) =
      .ok ⟨instructions, contributions.flatMap Contribution.retained⟩
  /-- Items that are all turns come back as they are. -/
  turns_fixed : (∀ item ∈ items, item.kind = .turn) →
    takeIn second instructions (items.map Item.toJson) = .ok ⟨instructions, items⟩

/-- The items of a conversation are taken in again, under any settings and after any
instructions, exactly as far as they are turns. -/
theorem takeIn_again {first : Settings} {existing : String} {messages : List Json}
    {intake : Intake} (h : takeIn first existing messages = .ok intake) (second : Settings)
    (instructions : String) :
    Retaken first second messages intake.items instructions := by
  obtain ⟨contributions, hcontributions, rfl⟩ := takeIn_eq_ok_iff.mp h
  change Retaken first second messages (contributions.flatMap Contribution.items) instructions
  obtain ⟨blocks, hblocks, hretained⟩ :=
    Contribution.exists_blocks_of_forall₂ hcontributions
  have hturns := takeIn_turns hblocks second instructions
  have hfixed : (∀ item ∈ contributions.flatMap Contribution.items, item.kind = .turn) →
      takeIn second instructions ((contributions.flatMap Contribution.items).map Item.toJson) =
        .ok ⟨instructions, contributions.flatMap Contribution.items⟩ := by
    intro hall
    rw [Item.turns_eq_self_iff.mpr hall, hretained,
      Contribution.flatMap_retained_eq_items hall] at hturns
    exact hturns
  constructor
  case accepted_iff =>
    constructor
    · rintro ⟨again, hagain⟩
      exact kind_of_takeIn_items hblocks hagain
    · intro hall
      exact ⟨_, hfixed hall⟩
  case rejection_eq => exact fun _ => rejection_of_takeIn_items hblocks
  case turns_unfold => exact ⟨blocks, hblocks.imp fun _ _ hretakes => hretakes.1, hturns⟩
  case turns_retained => exact ⟨contributions, hcontributions, rfl, hretained ▸ hturns⟩
  case turns_fixed => exact hfixed

/-- A question, a call made without a word, a call made with one, and its result. -/
def answeredQuestion : List Json := [
  .object [("role", .string "user"), ("content", .string "q")],
  .object [("role", .string "assistant"), ("tool_calls", .array [
    .object [("id", .string "c"), ("function", .object [("name", .string "f")])]])],
  .object [("content", .string "a"), ("role", .string "assistant"), ("tool_calls", .array [
    .object [("id", .string "d"), ("function", .object [("name", .string "g")])]])],
  .object [("role", .string "tool"), ("call_id", .string "d"), ("content", .string "r")]]

/-- The turn of the question, and the turn of the assistant with the call that it lists. -/
def keptTurns : List Item := [
  .turn [("role", .string "user"), ("content", .array [
    .object [("type", .string "input_text"), ("text", .string "q")]])],
  .turn [("content", .array [.object [("type", .string "input_text"), ("text", .string "a")]]),
    ("role", .string "assistant"), ("tool_calls", .array [
      .object [("id", .string "d"), ("function", .object [("name", .string "g")])]])],
  .call ⟨"d", "g", "\x7b\x7d"⟩]

theorem takeIn_again_answeredQuestion :
    ∃ intake, takeIn {} "" answeredQuestion = .ok intake ∧
      intake.items.map Item.kind = [.turn, .call, .turn, .call, .result] ∧
      takeIn ⟨"text/plain", []⟩ "next" (intake.items.map Item.toJson) = .error .missingRole ∧
      takeIn ⟨"text/plain", []⟩ "next" ((Item.turns intake.items).map Item.toJson) =
        .ok ⟨"next", keptTurns⟩ ∧
      Retaken {} ⟨"text/plain", []⟩ answeredQuestion intake.items "next" :=
  ⟨_, rfl, rfl, rfl, rfl, takeIn_again rfl _ _⟩

end ChatIntake
