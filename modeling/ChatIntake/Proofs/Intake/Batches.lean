import ChatIntake.Proofs.Intake.Contribution

/-!
# Conversations in batches

A conversation may be cut anywhere. Taking in what comes before the cut, and then the
rest after the instructions found so far, is the same as taking in everything at once:
the first fault is the same, and without a fault the instructions and the items are.
-/

namespace ChatIntake

namespace Intake

/-- A later intake after an earlier one: its instructions, and its items at the end. -/
def followedBy (earlier later : Intake) : Intake where
  instructions := later.instructions
  items := earlier.items ++ later.items

/-- The guidance of all contributions stands beside the instructions that exist already. -/
theorem ofContributions_instructions (existing : String) (contributions : List Contribution) :
    (ofContributions existing contributions).instructions =
      Text.beside existing (Text.joinLines (contributions.map Contribution.guidance)) :=
  Text.joinLines_cons existing _

/-- Contributions put together in two steps are the contributions put together at once. -/
theorem ofContributions_append (existing : String) (contributions others : List Contribution) :
    ofContributions existing (contributions ++ others) =
      (ofContributions existing contributions).followedBy
        (ofContributions (ofContributions existing contributions).instructions others) := by
  have hinstructions : (ofContributions existing (contributions ++ others)).instructions =
      (ofContributions (ofContributions existing contributions).instructions
        others).instructions := by
    simp only [ofContributions_instructions, List.map_append, Text.joinLines_append,
      Text.beside_assoc]
  have hitems : (ofContributions existing (contributions ++ others)).items =
      (ofContributions existing contributions).items ++
        (ofContributions (ofContributions existing contributions).instructions others).items :=
    List.flatMap_append
  exact congrArg₂ Intake.mk hinstructions hitems

end Intake

theorem takeIn_nil (settings : Settings) (existing : String) :
    takeIn settings existing [] = .ok ⟨existing, []⟩ := by
  have hexisting := Intake.ofContributions_instructions existing []
  rw [List.map_nil, Text.joinLines_nil, Text.beside_empty] at hexisting
  exact congrArg (fun instructions => Except.ok (Intake.mk instructions [])) hexisting

/-- What is taken in before a cut decides what the rest is taken in after. -/
theorem takeIn_append (settings : Settings) (existing : String) (messages others : List Json) :
    takeIn settings existing (messages ++ others) =
      match takeIn settings existing messages with
      | .error rejection => .error rejection
      | .ok earlier =>
        match takeIn settings earlier.instructions others with
        | .error rejection => .error rejection
        | .ok later => .ok (earlier.followedBy later) := by
  simp only [takeIn, Contribution.readAll_append]
  cases Contribution.readAll settings messages with
  | error rejection => rfl
  | ok contributions =>
      cases Contribution.readAll settings others with
      | error rejection => rfl
      | ok later => exact congrArg Except.ok (Intake.ofContributions_append ..)

/-- Take in a conversation batch by batch, each after the instructions of the one before. -/
def takeInBatches (settings : Settings) (existing : String) :
    List (List Json) → Except Rejection Intake
  | [] => .ok ⟨existing, []⟩
  | batch :: batches =>
    match takeIn settings existing batch with
    | .error rejection => .error rejection
    | .ok earlier =>
      match takeInBatches settings earlier.instructions batches with
      | .error rejection => .error rejection
      | .ok later => .ok (earlier.followedBy later)

theorem takeInBatches_eq_flatten (settings : Settings) (existing : String)
    (batches : List (List Json)) :
    takeInBatches settings existing batches = takeIn settings existing batches.flatten := by
  induction batches generalizing existing with
  | nil => exact (takeIn_nil settings existing).symm
  | cons batch batches ih =>
      rw [List.flatten_cons, takeIn_append]
      simp only [takeInBatches, ih]

/-- A fault before a cut or after it is the fault of the conversation; otherwise the
conversation gives the later instructions and the items of both sides. The same holds
for any number of cuts. -/
theorem takeIn_cut_anywhere (settings : Settings) (existing : String) :
    (∀ messages others rejection,
      takeIn settings existing messages = .error rejection →
        takeIn settings existing (messages ++ others) = .error rejection) ∧
    (∀ messages others earlier rejection,
      takeIn settings existing messages = .ok earlier →
      takeIn settings earlier.instructions others = .error rejection →
        takeIn settings existing (messages ++ others) = .error rejection) ∧
    (∀ messages others earlier later,
      takeIn settings existing messages = .ok earlier →
      takeIn settings earlier.instructions others = .ok later →
        takeIn settings existing (messages ++ others) =
          .ok ⟨later.instructions, earlier.items ++ later.items⟩) ∧
    ∀ batches, takeInBatches settings existing batches =
      takeIn settings existing batches.flatten := by
  refine ⟨?_, ?_, ?_, takeInBatches_eq_flatten settings existing⟩
  · intro messages others rejection h
    rw [takeIn_append, h]
  · intro messages others earlier rejection hearlier hlater
    rw [takeIn_append, hearlier]
    simp only [hlater]
  · intro messages others earlier later hearlier hlater
    rw [takeIn_append, hearlier]
    simp only [hlater, Intake.followedBy]

theorem takeIn_cut_before_fault :
    takeIn {} "a" [.object [("role", .string "system"), ("content", .string "b")]] =
      .ok ⟨"a\nb", []⟩ ∧
    takeIn {} "a\nb" [.null] = .error .notAnObject ∧
    takeIn {} "a" ([.object [("role", .string "system"), ("content", .string "b")]] ++ [.null]) =
      .error .notAnObject :=
  ⟨rfl, rfl, (takeIn_cut_anywhere {} "a").2.1 _ _ _ _ rfl rfl⟩

end ChatIntake
