import ChatIntake.Proofs.Intake.Contribution

/-!
# Conversations as two strands

The messages that guide a conversation and those that take part in it are two strands
which do not touch: one gives the instructions and the other the items. A conversation is
the two strands taken in apart, so any other interleaving of them is taken in alike.
-/

namespace ChatIntake

/-- The roles that guide a conversation. -/
def Role.guiding : List Role := [system, developer]

/-- The roles that take part in a conversation. -/
def Role.partaking : List Role := [user, assistant, tool]

namespace Message

/-- Whether a value is an object that names one of the given roles. -/
def isIn (roles : List Role) : Json → Bool
  | .object fields =>
    roles.any fun role => Keyed.get? fields "role" = some (.string role.text)
  | _ => false

theorem isIn_eq_true_iff {roles : List Role} {fields : Json.Fields} :
    isIn roles (.object fields) = true ↔ ∃ role ∈ roles, SpeaksAs fields role := by
  simp only [isIn, List.any_eq_true, decide_eq_true_eq, SpeaksAs]

/-- A message is in the roles that its own is among. -/
theorem isIn_of_speaksAs {fields : Json.Fields} {role : Role} (hrole : SpeaksAs fields role)
    (roles : List Role) : isIn roles (.object fields) = decide (role ∈ roles) := by
  rw [Bool.eq_iff_iff, isIn_eq_true_iff, decide_eq_true_eq]
  constructor
  · rintro ⟨other, hmem, hother⟩
    rwa [hrole.unique hother]
  · intro hmem
    exact ⟨role, hmem, hrole⟩

end Message

namespace Contribution

open Message

variable {settings : Settings}

/-- A message that contributes is on one of the strands, and gives nothing to the other. -/
theorem Contributes.strand {value : Json} {contribution : Contribution}
    (h : Contributes settings value contribution) :
    (isIn Role.guiding value = true ∧ isIn Role.partaking value = false ∧
        contribution.items = []) ∨
      (isIn Role.guiding value = false ∧ isIn Role.partaking value = true ∧
        contribution.guidance = "") := by
  cases h with
  | guidance hrole hguides =>
      rw [isIn_of_speaksAs hrole, isIn_of_speaksAs hrole]
      rcases hguides with rfl | rfl
      · exact .inl ⟨by decide, by decide, rfl⟩
      · exact .inl ⟨by decide, by decide, rfl⟩
  | user hrole | assistant hrole | tool hrole =>
      rw [isIn_of_speaksAs hrole, isIn_of_speaksAs hrole]
      exact .inr ⟨by decide, by decide, rfl⟩

/-- The contributions of a conversation, and those on each of its strands. -/
structure Strands (settings : Settings) (messages : List Json)
    (contributions guides parts : List Contribution) : Prop where
  forall₂_guides : List.Forall₂ (Contributes settings) (messages.filter (isIn Role.guiding)) guides
  forall₂_parts : List.Forall₂ (Contributes settings) (messages.filter (isIn Role.partaking)) parts
  /-- All guidance is on the one strand. -/
  guidance_eq : Text.joinLines (contributions.map guidance) = Text.joinLines (guides.map guidance)
  /-- All items are on the other. -/
  items_eq : contributions.flatMap items = parts.flatMap items
  guides_items : guides.flatMap items = []
  parts_guidance : Text.joinLines (parts.map guidance) = ""

/-- A further message lengthens one strand and leaves the other as it is. -/
theorem Strands.cons {message : Json} {messages : List Json} {contribution : Contribution}
    {contributions guides parts : List Contribution}
    (hmessage : Contributes settings message contribution)
    (h : Strands settings messages contributions guides parts) :
    ∃ guides parts,
      Strands settings (message :: messages) (contribution :: contributions) guides parts := by
  rcases hmessage.strand with ⟨hguiding, hpartaking, hitems⟩ | ⟨hguiding, hpartaking, htext⟩
  · refine ⟨contribution :: guides, parts, ?_⟩
    constructor
    case forall₂_guides =>
      rw [List.filter_cons_of_pos hguiding]
      exact .cons hmessage h.forall₂_guides
    case forall₂_parts =>
      rw [List.filter_cons_of_neg (by simp [hpartaking])]
      exact h.forall₂_parts
    case guidance_eq => simp only [List.map_cons, Text.joinLines_cons, h.guidance_eq]
    case items_eq => simp only [List.flatMap_cons, hitems, List.nil_append, h.items_eq]
    case guides_items => simp only [List.flatMap_cons, hitems, List.nil_append, h.guides_items]
    case parts_guidance => exact h.parts_guidance
  · refine ⟨guides, contribution :: parts, ?_⟩
    constructor
    case forall₂_guides =>
      rw [List.filter_cons_of_neg (by simp [hguiding])]
      exact h.forall₂_guides
    case forall₂_parts =>
      rw [List.filter_cons_of_pos hpartaking]
      exact .cons hmessage h.forall₂_parts
    case guidance_eq =>
      simp only [List.map_cons, Text.joinLines_cons, htext, Text.empty_beside, h.guidance_eq]
    case items_eq => simp only [List.flatMap_cons, h.items_eq]
    case guides_items => exact h.guides_items
    case parts_guidance =>
      simp only [List.map_cons, Text.joinLines_cons, htext, Text.empty_beside, h.parts_guidance]

theorem exists_strands {messages : List Json} {contributions : List Contribution}
    (h : List.Forall₂ (Contributes settings) messages contributions) :
    ∃ guides parts, Strands settings messages contributions guides parts := by
  induction h with
  | nil => exact ⟨[], [], .nil, .nil, rfl, rfl, rfl, rfl⟩
  | cons hmessage _ ih =>
      obtain ⟨guides, parts, hstrands⟩ := ih
      exact hstrands.cons hmessage

end Contribution

open Message Contribution

/-- What a conversation gives is what its strands give apart: the one nothing but the
instructions, and the other nothing but the items. -/
theorem takeIn_strands {settings : Settings} {existing : String} {messages : List Json}
    {intake : Intake} (h : takeIn settings existing messages = .ok intake) :
    takeIn settings existing (messages.filter (isIn Role.guiding)) =
        .ok ⟨intake.instructions, []⟩ ∧
      takeIn settings existing (messages.filter (isIn Role.partaking)) =
        .ok ⟨existing, intake.items⟩ := by
  obtain ⟨contributions, hcontributions, rfl⟩ := takeIn_eq_ok_iff.mp h
  obtain ⟨guides, parts, hstrands⟩ := exists_strands hcontributions
  constructor
  · rw [takeIn_eq_ok_iff]
    refine ⟨guides, hstrands.forall₂_guides, ?_⟩
    simp only [Intake.ofContributions, Text.joinLines_cons, hstrands.guidance_eq,
      hstrands.guides_items]
  · rw [takeIn_eq_ok_iff]
    refine ⟨parts, hstrands.forall₂_parts, ?_⟩
    simp only [Intake.ofContributions, Text.joinLines_cons, hstrands.parts_guidance,
      Text.beside_empty, hstrands.items_eq]

/-- Messages that are on strands which are taken in are taken in together. -/
theorem exists_takeIn_of_strands {settings : Settings} {existing : String}
    {messages : List Json} {guided partaken : Intake}
    (hroles : ∀ m ∈ messages, isIn Role.guiding m = true ∨ isIn Role.partaking m = true)
    (hguided : takeIn settings existing (messages.filter (isIn Role.guiding)) = .ok guided)
    (hpartaken : takeIn settings existing (messages.filter (isIn Role.partaking)) = .ok partaken) :
    ∃ intake, takeIn settings existing messages = .ok intake := by
  obtain ⟨guides, hguides, _⟩ := takeIn_eq_ok_iff.mp hguided
  obtain ⟨parts, hparts, _⟩ := takeIn_eq_ok_iff.mp hpartaken
  have hall : ∀ m ∈ messages, ∃ contribution, Contributes settings m contribution := by
    intro m hm
    rcases hroles m hm with hrole | hrole
    · exact Listing.exists_forall₂_iff.mp ⟨_, hguides⟩ m (List.mem_filter.mpr ⟨hm, hrole⟩)
    · exact Listing.exists_forall₂_iff.mp ⟨_, hparts⟩ m (List.mem_filter.mpr ⟨hm, hrole⟩)
  obtain ⟨contributions, hcontributions⟩ := Listing.exists_forall₂_iff.mpr hall
  exact ⟨_, takeIn_eq_ok_iff.mpr ⟨contributions, hcontributions, rfl⟩⟩

/-- A conversation that is taken in gives the instructions of its guiding messages alone
and the items of the others alone. Every conversation that interleaves the same two
strands in another way is taken in as well, and gives the same. -/
theorem takeIn_interleaved {settings : Settings} {existing : String} {messages : List Json}
    {intake : Intake} (h : takeIn settings existing messages = .ok intake) :
    takeIn settings existing (messages.filter (isIn Role.guiding)) =
        .ok ⟨intake.instructions, []⟩ ∧
      takeIn settings existing (messages.filter (isIn Role.partaking)) =
        .ok ⟨existing, intake.items⟩ ∧
      ∀ others : List Json,
        (∀ m ∈ others, isIn Role.guiding m = true ∨ isIn Role.partaking m = true) →
        others.filter (isIn Role.guiding) = messages.filter (isIn Role.guiding) →
        others.filter (isIn Role.partaking) = messages.filter (isIn Role.partaking) →
        takeIn settings existing others = .ok intake := by
  obtain ⟨hguided, hpartaken⟩ := takeIn_strands h
  refine ⟨hguided, hpartaken, ?_⟩
  intro others hroles hguiding hpartaking
  rw [← hguiding] at hguided
  rw [← hpartaking] at hpartaken
  obtain ⟨other, hother⟩ := exists_takeIn_of_strands hroles hguided hpartaken
  obtain ⟨hguided', hpartaken'⟩ := takeIn_strands hother
  -- Both intakes are put together from the intakes of the same strands.
  have hinstructions : intake.instructions = other.instructions := by
    rw [hguided, Except.ok.injEq, Intake.mk.injEq] at hguided'
    exact hguided'.1
  have hitems : intake.items = other.items := by
    rw [hpartaken, Except.ok.injEq, Intake.mk.injEq] at hpartaken'
    exact hpartaken'.2
  rw [hother]
  exact congrArg Except.ok (congrArg₂ Intake.mk hinstructions hitems).symm

/-- Guidance before and after a question and a result. -/
def guidedTalk : List Json := [
  .object [("role", .string "system"), ("content", .string "a")],
  .object [("role", .string "user"), ("content", .string "q")],
  .object [("role", .string "developer"), ("content", .array [.string "b"])],
  .object [("role", .string "tool"), ("call_id", .string "c"), ("content", .string "r")]]

/-- The same messages with the guidance at the end. -/
def talkThenGuidance : List Json := [
  .object [("role", .string "user"), ("content", .string "q")],
  .object [("role", .string "tool"), ("call_id", .string "c"), ("content", .string "r")],
  .object [("role", .string "system"), ("content", .string "a")],
  .object [("role", .string "developer"), ("content", .array [.string "b"])]]

theorem takeIn_interleaved_talkThenGuidance :
    ∃ intake, takeIn {} "e" guidedTalk = .ok intake ∧
      (∀ m ∈ talkThenGuidance, isIn Role.guiding m = true ∨ isIn Role.partaking m = true) ∧
      talkThenGuidance.filter (isIn Role.guiding) = guidedTalk.filter (isIn Role.guiding) ∧
      talkThenGuidance.filter (isIn Role.partaking) = guidedTalk.filter (isIn Role.partaking) ∧
      takeIn {} "e" talkThenGuidance = .ok intake := by
  obtain ⟨intake, h⟩ : ∃ intake, takeIn {} "e" guidedTalk = .ok intake := ⟨_, rfl⟩
  have hroles : ∀ m ∈ talkThenGuidance,
      isIn Role.guiding m = true ∨ isIn Role.partaking m = true := by decide
  exact ⟨intake, h, hroles, rfl, rfl,
    (takeIn_interleaved h).2.2 talkThenGuidance hroles rfl rfl⟩

end ChatIntake
