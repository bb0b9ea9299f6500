import ChatIntake.Proofs.Intake.Batches
import ChatIntake.Proofs.Intake.Retaking
import ChatIntake.Session
import Mathlib.Logic.Relation

/-!
# What a session keeps

Whatever steps a session has gone through, its turns can be taken in again and its body is
in canonical form, under any settings. This holds at the start and is preserved by every
step, so it holds all along, and it decides what the session may do next. Messages that
come in batches leave a session where they would leave it all at once.
-/

namespace ChatIntake.Session

/-- A step that is accepted. -/
inductive Step : Session → Session → Prop
  | takeIn {session next : Session} {messages : List Json} {intake : Intake}
      (h : session.takeIn messages = .ok (intake, next)) : Step session next
  | retake {session next : Session} (h : session.retake = .ok next) : Step session next
  | keep (session : Session) (kind : ItemKind) : Step session (session.keep kind)
  | canonicalize (session : Session) (body : Json) : Step session (session.canonicalize body)
  | recanonicalize (session : Session) : Step session session.recanonicalize
  | configure (session : Session) (settings : Settings) :
      Step session (session.configure settings)

/-- The sessions that steps lead to from one without items and body. -/
def Reachable (session : Session) : Prop :=
  ∃ settings instructions, Relation.ReflTransGen Step { settings, instructions } session

/-- What every step preserves. -/
structure Coherent (session : Session) : Prop where
  turns : ∀ item ∈ Item.turns session.items, ∃ block, Item.Retakes item block
  body : ∀ settings, Body.canonical settings session.body = session.body

section Invariant

variable {session next : Session}

/-- The turns that a conversation amounts to can be taken in again. -/
theorem exists_retakes_of_takeIn {settings : Settings} {existing : String}
    {messages : List Json} {intake : Intake}
    (h : ChatIntake.takeIn settings existing messages = .ok intake) :
    ∀ item ∈ Item.turns intake.items, ∃ block, Item.Retakes item block := by
  obtain ⟨contributions, hcontributions, rfl⟩ := takeIn_eq_ok_iff.mp h
  obtain ⟨blocks, hblocks, _⟩ := Contribution.exists_blocks_of_forall₂ hcontributions
  exact Listing.exists_forall₂_iff.mp ⟨blocks, hblocks⟩

theorem coherent_start (settings : Settings) (instructions : String) :
    Coherent { settings, instructions } := by
  constructor
  case turns => exact fun item hitem => absurd hitem List.not_mem_nil
  case body => exact fun _ => rfl

theorem Coherent.takeIn (h : session.Coherent) {messages : List Json} {intake : Intake}
    (hnext : session.takeIn messages = .ok (intake, next)) : next.Coherent := by
  simp only [Session.takeIn] at hnext
  split at hnext
  · cases hnext
  · next hintake =>
      cases hnext
      refine ⟨fun item hitem => ?_, h.body⟩
      rw [Item.turns_append, List.mem_append] at hitem
      rcases hitem with hitem | hitem
      · exact h.turns item hitem
      · exact exists_retakes_of_takeIn hintake item hitem

theorem Coherent.retake (h : session.Coherent) (hnext : session.retake = .ok next) :
    next.Coherent := by
  simp only [Session.retake] at hnext
  split at hnext
  · cases hnext
  · next hintake =>
      cases hnext
      exact ⟨exists_retakes_of_takeIn hintake, h.body⟩

theorem Coherent.keep (h : session.Coherent) (kind : ItemKind) : (session.keep kind).Coherent := by
  refine ⟨fun item hitem => h.turns item ?_, h.body⟩
  rw [Item.turns, List.mem_filter] at hitem ⊢
  exact ⟨List.mem_of_mem_filter hitem.1, hitem.2⟩

theorem Coherent.canonicalize (h : session.Coherent) (body : Json) :
    (session.canonicalize body).Coherent :=
  ⟨h.turns, fun settings => Body.canonical_canonical session.settings settings body⟩

/-- A session stays coherent whatever step it takes. -/
theorem Step.coherent (hstep : Step session next) (h : session.Coherent) : next.Coherent := by
  cases hstep with
  | takeIn hnext => exact h.takeIn hnext
  | retake hnext => exact h.retake hnext
  | keep kind => exact h.keep kind
  | canonicalize body => exact h.canonicalize body
  | recanonicalize => exact h.canonicalize session.body
  | configure settings => exact ⟨h.turns, h.body⟩

theorem Reachable.coherent (h : session.Reachable) : session.Coherent := by
  obtain ⟨settings, instructions, hsteps⟩ := h
  induction hsteps with
  | refl => exact coherent_start settings instructions
  | tail _ hstep ih => exact hstep.coherent ih

end Invariant

section Retaking

variable {session : Session}

theorem Coherent.exists_blocks (h : session.Coherent) :
    ∃ blocks, List.Forall₂ Item.Retakes (Item.turns session.items) blocks :=
  Listing.exists_forall₂_iff.mpr h.turns

/-- An item stands for itself when it is taken in again, and calls may come after it. -/
theorem turns_of_unfolds {item : Item} {block : List Item} (h : Item.Unfolds item block) :
    Item.turns block = [item] := by
  cases h with
  | user => rfl
  | assistant =>
      rw [Item.turns, List.filter_cons_of_pos (by rfl), ← Item.turns, Item.turns_map_call]

theorem turns_flatten_of_unfolds {items : List Item} {blocks : List (List Item)}
    (h : List.Forall₂ Item.Unfolds items blocks) : Item.turns blocks.flatten = items := by
  induction h with
  | nil => rfl
  | cons hitem _ ih =>
      rw [List.flatten_cons, Item.turns_append, turns_of_unfolds hitem, ih, List.singleton_append]

/-- The turns of a session are always taken in again. The instructions stay as they are, and
of what comes back the turns are those that were there. -/
theorem Reachable.retake_turns (h : session.Reachable) :
    ∃ next, (session.keep .turn).retake = .ok next ∧
      next.instructions = session.instructions ∧ next.keep .turn = session.keep .turn := by
  obtain ⟨blocks, hblocks⟩ := h.coherent.exists_blocks
  have hagain := takeIn_turns hblocks session.settings session.instructions
  have hturns : Item.turns blocks.flatten = Item.turns session.items :=
    turns_flatten_of_unfolds (hblocks.imp fun _ _ hretakes => hretakes.1)
  refine ⟨{ session with items := blocks.flatten }, ?_, rfl, ?_⟩
  · simp only [retake, keep]
    rw [← Item.turns, hagain]
  · simp only [keep]
    rw [← Item.turns, ← Item.turns, hturns]

/-- All the items of a session are taken in again exactly if all of them are turns. -/
theorem Reachable.retake_ok_iff (h : session.Reachable) :
    (∃ next, session.retake = .ok next) ↔ ∀ item ∈ session.items, item.kind = .turn := by
  obtain ⟨blocks, hblocks⟩ := h.coherent.exists_blocks
  constructor
  · rintro ⟨next, hnext⟩
    simp only [retake] at hnext
    split at hnext
    · cases hnext
    · next hagain => exact kind_of_takeIn_items hblocks hagain
  · intro hall
    rw [Item.turns_eq_self_iff.mpr hall] at hblocks
    have hagain := takeIn_turns hblocks session.settings session.instructions
    exact ⟨{ session with items := blocks.flatten }, by simp only [retake, hagain]⟩

/-- They are refused for nothing but a missing role. -/
theorem Reachable.retake_error (h : session.Reachable) {rejection : Rejection}
    (herror : session.retake = .error rejection) : rejection = .missingRole := by
  obtain ⟨blocks, hblocks⟩ := h.coherent.exists_blocks
  simp only [retake] at herror
  split at herror
  · next hagain =>
      cases herror
      exact rejection_of_takeIn_items hblocks hagain
  · cases herror

/-- The body of a session is in canonical form, whatever the settings are by now. -/
theorem Reachable.recanonicalize_eq (h : session.Reachable) : session.recanonicalize = session := by
  simp only [recanonicalize, canonicalize, h.coherent.body]

end Retaking

section Batches

/-- Take in batches of messages one after the other. -/
def takeInEach (session : Session) : List (List Json) → Except Rejection Session
  | [] => .ok session
  | batch :: batches =>
    match session.takeIn batch with
    | .error rejection => .error rejection
    | .ok (_, next) => next.takeInEach batches

variable (session : Session)

theorem takeIn_nil_eq : session.takeIn [] = .ok (⟨session.instructions, []⟩, session) := by
  simp only [takeIn, takeIn_nil, List.append_nil]

/-- Messages may be cut anywhere: what a session has become takes in the rest. -/
theorem takeIn_append_eq (messages others : List Json) :
    session.takeIn (messages ++ others) =
      match session.takeIn messages with
      | .error rejection => .error rejection
      | .ok (earlier, next) =>
        match next.takeIn others with
        | .error rejection => .error rejection
        | .ok (later, last) => .ok (earlier.followedBy later, last) := by
  simp only [takeIn, ChatIntake.takeIn_append]
  cases ChatIntake.takeIn session.settings session.instructions messages with
  | error rejection => rfl
  | ok earlier =>
      cases hlater : ChatIntake.takeIn session.settings earlier.instructions others with
      | error rejection => simp only [hlater]
      | ok later => simp only [hlater, Intake.followedBy, List.append_assoc]

/-- Any number of batches leaves a session where their messages would leave it at once. -/
theorem takeInEach_eq_flatten (batches : List (List Json)) :
    session.takeInEach batches = (session.takeIn batches.flatten).map Prod.snd := by
  induction batches generalizing session with
  | nil =>
      rw [List.flatten_nil, takeIn_nil_eq]
      rfl
  | cons batch batches ih =>
      rw [List.flatten_cons, takeIn_append_eq, takeInEach]
      cases session.takeIn batch with
      | error rejection => rfl
      | ok result =>
          simp only [ih]
          cases result.2.takeIn batches.flatten <;> rfl

variable {session}

/-- Batches that are all accepted lead from one session to the other step by step. -/
theorem Reachable.takeInEach (h : session.Reachable) {next : Session}
    {batches : List (List Json)} (hnext : session.takeInEach batches = .ok next) :
    next.Reachable := by
  induction batches generalizing session with
  | nil =>
      cases hnext
      exact h
  | cons batch batches ih =>
      simp only [Session.takeInEach] at hnext
      split at hnext
      · cases hnext
      · next hbatch =>
          obtain ⟨settings, instructions, hsteps⟩ := h
          exact ih ⟨settings, instructions, hsteps.tail (.takeIn hbatch)⟩ hnext

end Batches

end ChatIntake.Session
