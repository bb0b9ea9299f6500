import ChatIntake.Proofs.Listing

/-!
# Comparing two readings

One list read in two ways. The readings compare if they do so element by element:
then both are refused for the same reason, or both give results that compare.
-/

namespace ChatIntake.Comparison

variable {α β γ ε : Type}

/-- Two outcomes compare if both are refused for one reason, or both have results that
compare. -/
inductive Outcomes (R : β → γ → Prop) : Except ε β → Except ε γ → Prop
  | refused (e : ε) : Outcomes R (.error e) (.error e)
  | taken {y : β} {z : γ} (h : R y z) : Outcomes R (.ok y) (.ok z)

/-- Two lists that are made from one, each element with its two forms. -/
inductive Forks (R : α → β → γ → Prop) : List α → List β → List γ → Prop
  | nil : Forks R [] [] []
  | cons {x : α} {xs : List α} {y : β} {ys : List β} {z : γ} {zs : List γ} (h : R x y z)
      (hrest : Forks R xs ys zs) : Forks R (x :: xs) (y :: ys) (z :: zs)

theorem forks_map {R : α → β → γ → Prop} {f : α → β} {g : α → γ} (xs : List α)
    (h : ∀ x ∈ xs, R x (f x) (g x)) : Forks R xs (xs.map f) (xs.map g) := by
  induction xs with
  | nil => exact .nil
  | cons x xs ih =>
      obtain ⟨hx, hrest⟩ := List.forall_mem_cons.mp h
      exact .cons hx (ih hrest)

/-- Whether any element passes a test does not depend on the form the test is made on. -/
theorem Forks.any_eq {R : α → β → γ → Prop} {f : β → Bool} {g : γ → Bool}
    (htest : ∀ x y z, R x y z → f y = g z) {xs : List α} {ys : List β} {zs : List γ}
    (h : Forks R xs ys zs) : ys.any f = zs.any g := by
  induction h with
  | nil => rfl
  | cons hx _ ih => rw [List.any_cons, List.any_cons, htest _ _ _ hx, ih]

/-- Readings that compare on each element compare on the list. -/
theorem outcomes_readEach {R : β → γ → Prop} {first : Nat → α → Except ε β}
    {second : Nat → α → Except ε γ} (xs : List α)
    (h : ∀ i, ∀ x ∈ xs, Outcomes R (first i x) (second i x)) (index : Nat) :
    Outcomes (List.Forall₂ R) (Listing.readEach first index xs)
      (Listing.readEach second index xs) := by
  induction xs generalizing index with
  | nil => exact .taken .nil
  | cons x xs ih =>
      have hx := h index x List.mem_cons_self
      have hrest := ih (fun i y hy => h i y (List.mem_cons_of_mem x hy)) (index + 1)
      simp only [Listing.readEach]
      -- The outcomes become variables, so that the cases settle both readings at once.
      generalize first index x = firstRead, second index x = secondRead at hx ⊢
      cases hx with
      | refused e => exact .refused e
      | taken hxy =>
          generalize Listing.readEach first (index + 1) xs = firstRest,
            Listing.readEach second (index + 1) xs = secondRest at hrest ⊢
          cases hrest with
          | refused e => exact .refused e
          | taken hys => exact .taken (.cons hxy hys)

end ChatIntake.Comparison
