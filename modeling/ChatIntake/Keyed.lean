/-!
# Keyed lists

Values under keys, in order. A key is looked up by its first occurrence. Inserting
under a key that is there already, and changing what is there, keep its place.
-/

namespace ChatIntake

/-- A list of values under keys. -/
abbrev Keyed (α : Type) := List (String × α)

namespace Keyed

variable {α : Type}

/-- The first value under a key. -/
def get? : Keyed α → String → Option α
  | [], _ => none
  | (k, v) :: rest, key => if k = key then some v else get? rest key

/-- Replace the first value under a key, or add the key at the end. -/
def insert : Keyed α → String → α → Keyed α
  | [], key, value => [(key, value)]
  | (k, v) :: rest, key, value =>
    if k = key then (k, value) :: rest else (k, v) :: insert rest key value

/-- Change the values under a key where they stand. -/
def mapAt (key : String) (f : α → α) (entries : Keyed α) : Keyed α :=
  entries.map fun entry => if entry.1 = key then (entry.1, f entry.2) else entry

/-- Put an entry in front of the first one with a greater key. -/
def place (entry : String × α) : Keyed α → Keyed α
  | [] => [entry]
  | other :: rest => if entry.1 < other.1 then entry :: other :: rest else other :: place entry rest

/-- Entries in the order of their keys, which is the order of code points. -/
def byKey (entries : Keyed α) : Keyed α := entries.foldr place []

theorem get?_insert (entries : Keyed α) (key other : String) (value : α) :
    get? (insert entries key value) other =
      if other = key then some value else get? entries other := by
  induction entries with
  | nil => simp [insert, get?, eq_comm]
  | cons entry rest ih =>
    obtain ⟨k, v⟩ := entry
    by_cases h : k = key
    · subst h; by_cases o : k = other <;> simp [insert, get?, o, eq_comm (a := other)]
    · by_cases o : k = other
      · subst o; simp [insert, get?, h]
      · simp [insert, get?, h, o, ih]

theorem get?_mapAt (key : String) (f : α → α) (entries : Keyed α) (other : String) :
    get? (mapAt key f entries) other =
      (get? entries other).map (if other = key then f else id) := by
  induction entries with
  | nil => simp [mapAt, get?]
  | cons entry rest ih =>
    obtain ⟨k, v⟩ := entry
    simp only [mapAt, List.map_cons] at ih ⊢
    by_cases h : k = key <;> by_cases o : k = other
    · subst h; subst o; simp [get?]
    · subst h; simp [get?, o, ih]
    · subst o; simp [get?, h]
    · simp [get?, h, o, ih]

/-- Changing the values under a key twice is changing them once by both changes. -/
theorem mapAt_mapAt (key : String) (f g : α → α) (entries : Keyed α) :
    mapAt key g (mapAt key f entries) = mapAt key (g ∘ f) entries := by
  simp only [mapAt, List.map_map]
  apply List.map_congr_left
  intro entry _
  by_cases h : entry.1 = key <;> simp [h]

@[simp] theorem keys_mapAt (key : String) (f : α → α) (entries : Keyed α) :
    (mapAt key f entries).map (·.1) = entries.map (·.1) := by
  simp only [mapAt, List.map_map]
  apply List.map_congr_left
  intro entry _
  by_cases h : entry.1 = key <;> simp [h]

theorem place_perm (entry : String × α) (entries : Keyed α) :
    (place entry entries).Perm (entry :: entries) := by
  induction entries with
  | nil => exact .refl _
  | cons other rest ih =>
    simp only [place]
    split
    · exact .refl _
    · exact (ih.cons other).trans (.swap entry other rest)

theorem byKey_perm (entries : Keyed α) : (byKey entries).Perm entries := by
  induction entries with
  | nil => exact .refl _
  | cons entry rest ih => exact (place_perm entry (byKey rest)).trans (ih.cons entry)

theorem place_sorted (entry : String × α) {entries : Keyed α}
    (sorted : entries.Pairwise fun a b => a.1 ≤ b.1) :
    (place entry entries).Pairwise fun a b => a.1 ≤ b.1 := by
  induction entries with
  | nil => simp [place]
  | cons other rest ih =>
    obtain ⟨first, later⟩ := List.pairwise_cons.mp sorted
    simp only [place]
    split
    · next less =>
      refine List.pairwise_cons.mpr ⟨fun x hx => ?_, sorted⟩
      rcases List.mem_cons.mp hx with rfl | hx
      · exact Std.le_of_lt less
      · exact String.le_trans (Std.le_of_lt less) (first x hx)
    · next notLess =>
      refine List.pairwise_cons.mpr ⟨fun x hx => ?_, ih later⟩
      rcases List.mem_cons.mp ((place_perm entry rest).mem_iff.mp hx) with rfl | hx
      · exact String.not_lt.mp notLess
      · exact first x hx

theorem byKey_sorted (entries : Keyed α) :
    (byKey entries).Pairwise fun a b => a.1 ≤ b.1 := by
  induction entries with
  | nil => simp [byKey]
  | cons entry rest ih => exact place_sorted entry ih

end Keyed

end ChatIntake
