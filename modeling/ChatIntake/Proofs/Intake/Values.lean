import ChatIntake.Proofs.Intake.Retaking

/-!
# Values and texts of items

An item is written field by field, and what is written is the text of its JSON value. The
fields of a turn may be any, and then its value may be that of a call. A turn that is taken
in names a role, though, which neither calls nor results do, so the items of conversations
are told apart by their values.
-/

namespace ChatIntake

namespace Item

open Message

/-- An item is written as its JSON value is. -/
theorem write_eq_write_toJson (item : Item) : item.write = item.toJson.write := by
  cases item with
  | turn fields => rfl
  | call c => simp [write, writeField, toJson, Json.write, Json.writeFields]
  | result r => simp [write, writeField, toJson, Json.write, Json.writeFields]

theorem text_eq_compact_toJson (item : Item) : item.text = item.toJson.compact := by
  rw [text, Json.compact, write_eq_write_toJson]

/-- An item that names a role if it is a turn. -/
inductive Attributed : Item → Prop
  | turn {fields : Json.Fields} {role : Role} (hrole : SpeaksAs fields role) :
      Attributed (.turn fields)
  | call (c : ToolCall) : Attributed (.call c)
  | result (r : ToolResult) : Attributed (.result r)

/-- Only a turn may have the value of a message with a role. -/
theorem eq_turn_of_speaksAs {item : Item} {fields : Json.Fields} {role : Role}
    (hrole : SpeaksAs fields role) (hvalue : item.toJson = .object fields) :
    item = .turn fields := by
  have hkind : item.kind = .turn := by
    -- As a message, the value of any other item is refused for its missing role.
    by_contra hkind
    have hfault := fault_toJson hkind
    rw [hvalue] at hfault
    cases hfault with
    | missingRole hnone => exact hnone _ hrole
    | call _ _ _ hentry => cases hentry
  cases item with
  | turn own => rw [Json.object.inj hvalue]
  | call c => cases hkind
  | result r => cases hkind

/-- Attributed items are told apart by their values. -/
theorem Attributed.eq_of_toJson_eq {item other : Item} (hitem : Attributed item)
    (hother : Attributed other) (h : item.toJson = other.toJson) : item = other := by
  cases hitem with
  | turn hrole => exact (eq_turn_of_speaksAs hrole h.symm).symm
  | call c =>
      cases hother with
      | turn hrole => exact eq_turn_of_speaksAs hrole h
      | call d =>
          obtain ⟨id, name, arguments⟩ := c
          simp only [toJson, Json.object.injEq, List.cons.injEq, Prod.mk.injEq, Json.string.injEq,
            true_and, and_true] at h
          obtain ⟨rfl, rfl, rfl⟩ := h
          rfl
      | result r => simp [toJson] at h
  | result r =>
      cases hother with
      | turn hrole => exact eq_turn_of_speaksAs hrole h
      | call d => simp [toJson] at h
      | result s =>
          obtain ⟨callId, output⟩ := r
          simp only [toJson, Json.object.injEq, List.cons.injEq, Prod.mk.injEq, Json.string.injEq,
            true_and, and_true] at h
          obtain ⟨rfl, rfl⟩ := h
          rfl

end Item

namespace Contribution

open Item

/-- The canonical form of a message has its role, and so does the turn. -/
theorem Contributes.attributed {settings : Settings} {value : Json} {contribution : Contribution}
    (h : Contributes settings value contribution) :
    ∀ item ∈ contribution.items, Attributed item := by
  cases h with
  | guidance => exact fun _ hitem => absurd hitem List.not_mem_nil
  | user hrole =>
      rw [List.forall_mem_singleton]
      exact .turn (speaksAs_canonicalTurn settings hrole)
  | @assistant fields entries calls hrole =>
      have hturn : ∀ item ∈ assistantTurn settings fields, Attributed item := by
        intro item hitem
        rcases assistantTurn_cases settings fields with hnone | hone
        · rw [hnone] at hitem
          cases hitem
        · rw [hone, List.mem_singleton] at hitem
          rw [hitem]
          exact .turn (speaksAs_canonicalTurn settings hrole)
      rw [List.forall_mem_append, List.forall_mem_map]
      exact ⟨hturn, fun c _ => .call c⟩
  | tool =>
      rw [List.forall_mem_singleton]
      exact .result _

theorem attributed_of_forall₂ {settings : Settings} {messages : List Json}
    {contributions : List Contribution}
    (h : List.Forall₂ (Contributes settings) messages contributions) :
    ∀ item ∈ contributions.flatMap items, Attributed item := by
  induction h with
  | nil => exact fun _ hitem => absurd hitem List.not_mem_nil
  | cons hvalue _ ih =>
      rw [List.flatMap_cons, List.forall_mem_append]
      exact ⟨hvalue.attributed, ih⟩

end Contribution

theorem attributed_of_takeIn {settings : Settings} {existing : String} {messages : List Json}
    {intake : Intake} (h : takeIn settings existing messages = .ok intake) :
    ∀ item ∈ intake.items, item.Attributed := by
  obtain ⟨contributions, hcontributions, rfl⟩ := takeIn_eq_ok_iff.mp h
  exact Contribution.attributed_of_forall₂ hcontributions

/-- Every item is written as its value is. Items of one conversation or of two are of one
kind and equal in all their fields if they have one value, and a turn has the value of no
call or result, even one that no conversation gave. -/
theorem items_told_apart_by_value :
    (∀ item : Item, item.text = item.toJson.compact) ∧
      ∀ {first second : Settings} {existing other : String} {messages others : List Json}
        {left right : Intake}, takeIn first existing messages = .ok left →
        takeIn second other others = .ok right →
          (∀ item ∈ left.items, ∀ fellow ∈ right.items, item.toJson = fellow.toJson →
            item.kind = fellow.kind ∧ item = fellow) ∧
          ∀ item ∈ left.items, item.kind = .turn → ∀ fellow : Item, fellow.kind ≠ .turn →
            item.toJson ≠ fellow.toJson := by
  refine ⟨Item.text_eq_compact_toJson, fun hleft hright => ⟨?_, ?_⟩⟩
  · intro item hitem fellow hfellow hvalue
    have hsame : item = fellow := (attributed_of_takeIn hleft item hitem).eq_of_toJson_eq
      (attributed_of_takeIn hright fellow hfellow) hvalue
    exact ⟨congrArg Item.kind hsame, hsame⟩
  · intro item hitem hturn fellow hkind hvalue
    cases attributed_of_takeIn hleft item hitem with
    | turn hrole =>
        rw [Item.eq_turn_of_speaksAs hrole hvalue.symm] at hkind
        exact hkind rfl
    | call c => cases hturn
    | result r => cases hturn

/-- The fields of a call, made by the assistant. -/
def madeCall : Item := .call ⟨"c", "f", "\x7b\x7d"⟩

/-- The same fields, sent by the user with a role besides. -/
def imitatedCall : Item := .turn [
  ("type", .string "function_call"), ("call_id", .string "c"), ("name", .string "f"),
  ("arguments", .string "\x7b\x7d"), ("role", .string "user")]

/-- A call imitated by the user and then made by the assistant. -/
def imitation : List Json := [
  imitatedCall.toJson,
  .object [("role", .string "assistant"), ("tool_calls", .array [
    .object [("id", .string "c"), ("function", .object [("name", .string "f"),
      ("arguments", .string "\x7b\x7d")])]])]]

theorem items_told_apart_by_value_imitation :
    takeIn {} "" imitation = .ok ⟨"", [imitatedCall, madeCall]⟩ ∧
      imitatedCall.toJson ≠ madeCall.toJson ∧
      ∀ item ∈ [imitatedCall, madeCall], ∀ fellow ∈ [imitatedCall, madeCall],
        item.toJson = fellow.toJson → item = fellow := by
  have htaken : takeIn {} "" imitation = .ok ⟨"", [imitatedCall, madeCall]⟩ := rfl
  obtain ⟨hsame, hturn⟩ := items_told_apart_by_value.2 htaken htaken
  refine ⟨htaken, ?_, ?_⟩
  · exact hturn imitatedCall List.mem_cons_self rfl madeCall (by decide)
  · intro item hitem fellow hfellow hvalue
    exact (hsame item hitem fellow hfellow hvalue).2

end ChatIntake
