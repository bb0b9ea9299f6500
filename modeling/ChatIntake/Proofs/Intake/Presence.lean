import ChatIntake.Proofs.Content.Canonical
import ChatIntake.Proofs.Intake.Contribution

/-!
# Presence of a turn

The assistant's turn is an item of its own if its body counts. A part that is the body
itself and the same part as the only element of a list are judged apart. The verdicts
are the same unless the part cannot be read and has a text that is not a string: alone it
counts, as it is not empty, and in a list it does not, as that text says nothing.
-/

namespace ChatIntake

namespace Body

/-- The field `text` of a part is there, and is neither a string nor `null`. -/
def HoldsOtherText (part : Json.Fields) : Prop :=
  ∃ value, part.get? "text" = some value ∧ value ≠ .null ∧ ∀ s, value ≠ .string s

/-- The parts that count as a body and not as an element of a list. -/
structure CountsOnlyAlone (part : Json.Fields) : Prop where
  holdsOtherText : HoldsOtherText part
  not_denotes : ∀ form, ¬ Part.Denotes (.object part) form

section Verdicts

variable {part : Json.Fields}

theorem isSubstantial_object_of_holdsOtherText (h : HoldsOtherText part) :
    isSubstantial (some (.object part)) = true := by
  obtain ⟨value, hvalue, _, hstring⟩ := h
  have htext : Json.Fields.text? part "text" = none := by
    rw [Json.Fields.text?_eq_none_iff, hvalue]
    intro s hs
    exact hstring s (Option.some.inj hs)
  have hpart : part ≠ [] := by
    rintro rfl
    cases hvalue
  simp [isSubstantial, htext, hpart]

theorem countsInList_object_of_holdsOtherText (h : HoldsOtherText part) :
    countsInList (.object part) = false := by
  obtain ⟨value, hvalue, hnull, hstring⟩ := h
  cases value with
  | null => exact absurd rfl hnull
  | string s => exact absurd rfl (hstring s)
  | bool | number | array | object => simp only [countsInList, hvalue]

/-- The two verdicts on an object agree unless it holds another text. -/
theorem isSubstantial_object_eq_countsInList (h : ¬ HoldsOtherText part) :
    isSubstantial (some (.object part)) = countsInList (.object part) := by
  cases htext : Keyed.get? part "text" with
  | none => simp [isSubstantial, Json.Fields.text?, countsInList, htext]
  | some value =>
      cases value with
      | null | string => simp [isSubstantial, Json.Fields.text?, Json.text?, countsInList, htext]
      | bool | number | array | object => exact absurd ⟨_, htext, by simp, by simp⟩ h

/-- The canonical form of a part has a string for its text, or no text. -/
theorem not_holdsOtherText_write {settings : Settings} {form : Part} {fields : Json.Fields}
    (h : Part.write settings form = .object fields) : ¬ HoldsOtherText fields := by
  rintro ⟨value, hvalue, _, hstring⟩
  cases form with
  | text s =>
      cases h
      exact hstring s (Option.some.inj hvalue).symm
  | image url detail? => cases detail? <;> cases h <;> simp [Keyed.get?] at hvalue
  | audio data format =>
      cases h
      simp [Keyed.get?] at hvalue
  | file attachment =>
      cases attachment <;> cases h <;> simp [Keyed.get?, Attachment.fields] at hvalue

theorem isSubstantial_canonical_object (settings : Settings) (part : Json.Fields) :
    isSubstantial (some (canonical settings (.object part))) =
      isSubstantial (some (canonicalPart settings (.object part))) :=
  rfl

theorem isSubstantial_canonical_list (settings : Settings) (element : Json) :
    isSubstantial (some (canonical settings (.array [element]))) =
      countsInList (canonicalPart settings element) := by
  simp [canonical, isSubstantial]

/-- A part that is left as it is keeps the text on which the two verdicts differ. -/
theorem verdicts_of_countsOnlyAlone (h : CountsOnlyAlone part) (settings : Settings) :
    isSubstantial (some (canonical settings (.object part))) = true ∧
      isSubstantial (some (canonical settings (.array [.object part]))) = false := by
  have hkept : canonicalPart settings (.object part) = .object part :=
    canonicalPart_of_read?_eq_none (Part.read?_eq_none_iff.mpr h.not_denotes)
  rw [isSubstantial_canonical_object, isSubstantial_canonical_list, hkept]
  exact ⟨isSubstantial_object_of_holdsOtherText h.holdsOtherText,
    countsInList_object_of_holdsOtherText h.holdsOtherText⟩

/-- All other parts count alike alone and in a list. -/
theorem verdicts_eq (h : ¬ CountsOnlyAlone part) (settings : Settings) :
    isSubstantial (some (canonical settings (.object part))) =
      isSubstantial (some (canonical settings (.array [.object part]))) := by
  -- Either way the object that is judged holds no other text, and then the verdicts agree.
  have hform : ∃ form, canonicalPart settings (.object part) = .object form ∧
      ¬ HoldsOtherText form := by
    cases hread : Part.read? (.object part) with
    | none =>
        refine ⟨part, canonicalPart_of_read?_eq_none hread, fun htext => ?_⟩
        exact h ⟨htext, Part.read?_eq_none_iff.mp hread⟩
    | some known =>
        obtain ⟨form, hwrite, _⟩ := inert_write settings known
        refine ⟨form, ?_, not_holdsOtherText_write hwrite⟩
        rw [canonicalPart_of_denotes (Part.read?_eq_some_iff.mp hread), hwrite]
  obtain ⟨form, hcanonical, htext⟩ := hform
  rw [isSubstantial_canonical_object, isSubstantial_canonical_list, hcanonical]
  exact isSubstantial_object_eq_countsInList htext

end Verdicts

end Body

/-- A message is taken in and gives a turn. -/
def YieldsTurn (settings : Settings) (existing : String) (message : Json) : Prop :=
  ∃ intake, takeIn settings existing [message] = .ok intake ∧
    ∃ item ∈ intake.items, item.kind = .turn

section Turns

open Message

variable {settings : Settings} {existing : String} {fields : Json.Fields}

theorem exists_turn_iff {calls : List ToolCall} :
    (∃ item ∈ Contribution.assistantTurn settings fields ++ calls.map Item.call,
      item.kind = .turn) ↔
      Body.isSubstantial ((Body.canonicalTurn settings fields).get? "content") = true := by
  have hcalls : ∀ item ∈ calls.map Item.call, item.kind ≠ .turn := by
    rw [List.forall_mem_map]
    intro c _ hkind
    cases hkind
  simp only [Contribution.assistantTurn]
  split
  · next hcounts => simp [hcounts, Item.kind]
  · next hcounts =>
      constructor
      · rintro ⟨item, hitem, hkind⟩
        exact absurd hkind (hcalls item hitem)
      · intro h
        exact absurd h hcounts

/-- The assistant's message gives a turn if its calls can be read and its body counts. -/
theorem yieldsTurn_iff (hrole : SpeaksAs fields .assistant) :
    YieldsTurn settings existing (.object fields) ↔ ToolCall.ListsCalls fields ∧
      Body.isSubstantial ((Body.canonicalTurn settings fields).get? "content") = true := by
  simp only [YieldsTurn, takeIn, Contribution.readAll, Contribution.read_of_speaksAs hrole,
    Contribution.ofMessage, ToolCall.listsCalls_iff]
  cases ToolCall.readFrom 0 (ToolCall.entries fields) with
  | error rejection => simp
  | ok calls =>
      simp only [Except.ok.injEq, exists_eq_left', exists_eq', Intake.ofContributions,
        List.flatMap_cons, List.flatMap_nil, List.append_nil, exists_turn_iff, true_and]

theorem yieldsTurn_insert_iff (hrole : SpeaksAs fields .assistant) (body : Json) :
    YieldsTurn settings existing (.object (fields.insert "content" body)) ↔
      ToolCall.ListsCalls fields ∧
        Body.isSubstantial (some (Body.canonical settings body)) = true := by
  have hspeaks : SpeaksAs (fields.insert "content" body) .assistant := by
    rw [SpeaksAs, Keyed.get?_insert, if_neg (by decide)]
    exact hrole
  have hfield : (fields.insert "content" body).get? "tool_calls" = fields.get? "tool_calls" := by
    rw [Keyed.get?_insert, if_neg (by decide)]
  have hbody : (Body.canonicalTurn settings (fields.insert "content" body)).get? "content" =
      some (Body.canonical settings body) := by
    simp [Body.canonicalTurn, Keyed.get?_mapAt, Keyed.get?_insert]
  rw [yieldsTurn_iff hspeaks, ToolCall.listsCalls_congr hfield, hbody]

end Turns

/-- A message of the assistant whose body is a list of one part gives no turn unless the part
alone does. The part alone gives a turn that the list does not exactly if the calls of the
message can be read, the part cannot, and its text is neither a string nor `null`. -/
theorem yieldsTurn_alone_and_listed {fields : Json.Fields}
    (hrole : Message.SpeaksAs fields .assistant) (settings : Settings) (existing : String)
    (part : Json.Fields) :
    (YieldsTurn settings existing (.object (fields.insert "content" (.array [.object part]))) →
      YieldsTurn settings existing (.object (fields.insert "content" (.object part)))) ∧
    (YieldsTurn settings existing (.object (fields.insert "content" (.object part))) ∧
        ¬ YieldsTurn settings existing
          (.object (fields.insert "content" (.array [.object part]))) ↔
      ToolCall.ListsCalls fields ∧ Body.CountsOnlyAlone part) := by
  rw [yieldsTurn_insert_iff hrole, yieldsTurn_insert_iff hrole]
  by_cases hpart : Body.CountsOnlyAlone part
  · obtain ⟨halone, hlisted⟩ := Body.verdicts_of_countsOnlyAlone hpart settings
    simp [halone, hlisted, hpart]
  · rw [Body.verdicts_eq hpart settings]
    simp [hpart]

/-- A message of the assistant with a call and without a word. -/
def wordlessCall : Json.Fields :=
  [("content", .null), ("role", .string "assistant"), ("tool_calls", .array [
    .object [("id", .string "c"), ("function", .object [("name", .string "f")])]])]

/-- A part of no known type that has a list for its text. -/
def unknownPart : Json.Fields := [("type", .string "x"), ("text", .array [.string "a"])]

theorem yieldsTurn_alone_and_listed_unknownPart :
    Message.SpeaksAs wordlessCall .assistant ∧
      YieldsTurn {} "" (.object (wordlessCall.insert "content" (.object unknownPart))) ∧
      ¬ YieldsTurn {} ""
        (.object (wordlessCall.insert "content" (.array [.object unknownPart]))) := by
  have hrole : Message.SpeaksAs wordlessCall .assistant := rfl
  have hcalls : ToolCall.ListsCalls wordlessCall :=
    ToolCall.listsCalls_iff.mpr ⟨_, rfl⟩
  have hpart : Body.CountsOnlyAlone unknownPart :=
    ⟨⟨_, rfl, by simp, by simp⟩, Part.read?_eq_none_iff.mp rfl⟩
  exact ⟨hrole, (yieldsTurn_alone_and_listed hrole {} "" unknownPart).2.mpr ⟨hcalls, hpart⟩⟩

/-- A number under `text` counts as a body, and not as the body's only element. -/
theorem not_yieldsTurn_alike_numberedText :
    ¬ (YieldsTurn {} "" (.object [("role", .string "assistant"),
          ("content", .object [("text", .number (.int 5))])]) ↔
        YieldsTurn {} "" (.object [("role", .string "assistant"),
          ("content", .array [.object [("text", .number (.int 5))]])])) := by
  intro h
  obtain ⟨intake, htaken, item, hitem, _⟩ := h.mp ⟨_, rfl, _, List.mem_cons_self, rfl⟩
  cases htaken
  cases hitem

end ChatIntake
