import Mathlib.Data.List.Forall2

/-!
# Reading lists in order

Messages and tool calls are read one after the other, and the first that cannot be
read decides. What an element is read as does not depend on its place; only the
reason for which it cannot be read may name its index.
-/

namespace ChatIntake.Listing

variable {α β γ δ ε : Type}

/-- Read the elements of a list whose indices start at `index`. -/
def readEach (read : Nat → α → Except ε β) (index : Nat) : List α → Except ε (List β)
  | [] => .ok []
  | x :: xs =>
    match read index x with
    | .error e => .error e
    | .ok y =>
      match readEach read (index + 1) xs with
      | .error e => .error e
      | .ok ys => .ok (y :: ys)

theorem exists_forall₂_iff {R : α → β → Prop} {xs : List α} :
    (∃ ys, List.Forall₂ R xs ys) ↔ ∀ x ∈ xs, ∃ y, R x y := by
  induction xs with
  | nil => simp
  | cons x xs ih =>
      rw [List.forall_mem_cons, ← ih]
      constructor
      · rintro ⟨_, h⟩
        obtain ⟨y, ys, hy, hys, rfl⟩ := List.forall₂_cons_left_iff.mp h
        exact ⟨⟨y, hy⟩, ys, hys⟩
      · rintro ⟨⟨y, hy⟩, ys, hys⟩
        exact ⟨y :: ys, .cons hy hys⟩

theorem map_eq_map_iff_forall₂ {f : α → γ} {g : β → γ} {xs : List α} {ys : List β} :
    xs.map f = ys.map g ↔ List.Forall₂ (fun x y => f x = g y) xs ys := by
  rw [← List.forall₂_eq_eq_eq, List.forall₂_map_left_iff, List.forall₂_map_right_iff]

/-- What each element of a list has besides its partner, the whole list has besides its own. -/
theorem exists_forall₂_of_forall₂ {R : α → β → Prop} {S : α → γ → Prop} {T : β → γ → Prop}
    {xs : List α} {ys : List β} (h : ∀ x ∈ xs, ∀ y, R x y → ∃ z, S x z ∧ T y z)
    (hxs : List.Forall₂ R xs ys) :
    ∃ zs, List.Forall₂ S xs zs ∧ List.Forall₂ T ys zs := by
  induction hxs with
  | nil => exact ⟨[], .nil, .nil⟩
  | cons hxy _ ih =>
      obtain ⟨hx, hrest⟩ := List.forall_mem_cons.mp h
      obtain ⟨z, hxz, hyz⟩ := hx _ hxy
      obtain ⟨zs, hxs, hys⟩ := ih hrest
      exact ⟨z :: zs, .cons hxz hxs, .cons hyz hys⟩

/-- What is kept of each block answers to the element of the block, so what is kept of all
blocks together answers to all elements. -/
theorem forall₂_filterMap_flatten {Block : α → List β → Prop} {R : γ → δ → Prop}
    {keep : β → Option γ} {parts : α → List δ}
    (hblock : ∀ x block, Block x block → List.Forall₂ R (block.filterMap keep) (parts x))
    {xs : List α} {blocks : List (List β)} (h : List.Forall₂ Block xs blocks) :
    List.Forall₂ R (blocks.flatten.filterMap keep) (xs.flatMap parts) := by
  induction h with
  | nil => exact .nil
  | cons hx _ ih =>
      rw [List.flatten_cons, List.filterMap_append, List.flatMap_cons]
      exact List.rel_append (hblock _ _ hx) ih

variable {read : Nat → α → Except ε β} {R : α → β → Prop}

/-- What follows a list that is read is read from the next index on. -/
theorem readEach_append (index : Nat) (xs others : List α) :
    readEach read index (xs ++ others) =
      match readEach read index xs with
      | .error e => .error e
      | .ok ys =>
        match readEach read (index + xs.length) others with
        | .error e => .error e
        | .ok zs => .ok (ys ++ zs) := by
  induction xs generalizing index with
  | nil =>
      simp only [List.nil_append, readEach, List.length_nil, Nat.add_zero]
      cases readEach read index others <;> rfl
  | cons x xs ih =>
      have hindex : index + 1 + xs.length = index + (xs.length + 1) := by omega
      simp only [List.cons_append, readEach, ih, List.length_cons, hindex]
      cases read index x with
      | error e => rfl
      | ok y =>
          cases readEach read (index + 1) xs with
          | error e => rfl
          | ok ys => cases readEach read (index + (xs.length + 1)) others <;> rfl

/-- A list is read exactly if each of its elements is. -/
theorem readEach_eq_ok_iff (hread : ∀ i x y, read i x = .ok y ↔ R x y) {index : Nat}
    {xs : List α} {ys : List β} :
    readEach read index xs = .ok ys ↔ List.Forall₂ R xs ys := by
  induction xs generalizing index ys with
  | nil => cases ys <;> simp [readEach]
  | cons x xs ih =>
      rw [List.forall₂_cons_left_iff]
      constructor
      · intro h
        simp only [readEach] at h
        split at h
        · cases h
        · next y hy =>
            split at h
            · cases h
            · next zs hzs =>
                cases h
                exact ⟨y, zs, (hread _ _ _).mp hy, ih.mp hzs, rfl⟩
      · rintro ⟨y, zs, hy, hzs, rfl⟩
        simp only [readEach, (hread index x y).mpr hy, ih.mpr hzs]

theorem exists_of_readEach_eq_error (hread : ∀ i x y, read i x = .ok y ↔ R x y)
    {index : Nat} {xs : List α} {e : ε} (h : readEach read index xs = .error e) :
    ∃ before x after, xs = before ++ x :: after ∧ (∀ b ∈ before, ∃ y, R b y) ∧
      read (index + before.length) x = .error e := by
  induction xs generalizing index with
  | nil => cases h
  | cons x xs ih =>
      simp only [readEach] at h
      split at h
      · next reason hx =>
          cases h
          exact ⟨[], x, xs, rfl, by simp, hx⟩
      · next y hy =>
          have hrest : readEach read (index + 1) xs = .error e := by
            split at h
            · next hrest => rw [hrest, Except.error.inj h]
            · cases h
          obtain ⟨before, other, after, rfl, hbefore, hother⟩ := ih hrest
          refine ⟨x :: before, other, after, rfl, ?_, ?_⟩
          · rw [List.forall_mem_cons]
            exact ⟨⟨y, (hread index x y).mp hy⟩, hbefore⟩
          · rw [List.length_cons, Nat.add_comm before.length, ← Nat.add_assoc]
            exact hother

/-- A list is refused exactly for the first of its elements that is. -/
theorem readEach_eq_error_iff (hread : ∀ i x y, read i x = .ok y ↔ R x y) {index : Nat}
    {xs : List α} {e : ε} :
    readEach read index xs = .error e ↔
      ∃ before x after, xs = before ++ x :: after ∧ (∀ b ∈ before, ∃ y, R b y) ∧
        read (index + before.length) x = .error e := by
  constructor
  · exact exists_of_readEach_eq_error hread
  · rintro ⟨before, x, after, rfl, hbefore, hx⟩
    obtain ⟨ys, hys⟩ := exists_forall₂_iff.mpr hbefore
    rw [readEach_append, (readEach_eq_ok_iff hread).mpr hys]
    simp only [readEach, hx]

end ChatIntake.Listing
