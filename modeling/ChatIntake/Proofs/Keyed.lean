import ChatIntake.Keyed
import ChatIntake.Proofs.Text.Utf8
import Mathlib.Data.List.Nodup

/-!
# Lists in which a key stands once

In a list that holds each key once, looking a key up is the same as finding it under
its value somewhere. Inserting never makes a key stand twice. Such a list can be put in
the order of the bytes of its keys in one way only.
-/

namespace ChatIntake.Keyed

variable {α : Type} {P : α → Prop} {entries : Keyed α} {key : String} {value : α}

theorem mem_of_get?_eq_some (h : entries.get? key = some value) : (key, value) ∈ entries := by
  induction entries with
  | nil => cases h
  | cons entry rest ih =>
      simp only [get?] at h
      split at h
      · next hkey =>
          cases h
          exact hkey ▸ List.mem_cons_self
      · exact List.mem_cons_of_mem _ (ih h)

theorem get?_eq_none_of_notMem (h : key ∉ entries.map (·.1)) : entries.get? key = none := by
  apply Option.eq_none_iff_forall_ne_some.mpr
  intro value hget
  exact h (List.mem_map_of_mem (mem_of_get?_eq_some hget))

theorem exists_get?_of_mem (h : key ∈ entries.map (·.1)) :
    ∃ value, entries.get? key = some value := by
  induction entries with
  | nil => cases h
  | cons entry rest ih =>
      by_cases hkey : entry.1 = key
      · exact ⟨entry.2, if_pos hkey⟩
      · obtain ⟨value, hvalue⟩ := ih ((List.mem_cons.mp h).resolve_left (Ne.symm hkey))
        exact ⟨value, by rw [get?, if_neg hkey, hvalue]⟩

theorem get?_eq_some_iff (hkeys : (entries.map (·.1)).Nodup) :
    entries.get? key = some value ↔ (key, value) ∈ entries := by
  constructor
  · exact mem_of_get?_eq_some
  · intro hmem
    induction entries with
    | nil => cases hmem
    | cons entry rest ih =>
        rw [List.map_cons, List.nodup_cons] at hkeys
        rcases List.mem_cons.mp hmem with rfl | hrest
        · exact if_pos rfl
        · have hne : entry.1 ≠ key := fun heq =>
            hkeys.1 (heq ▸ List.mem_map_of_mem hrest)
          simp only [get?, if_neg hne, ih hkeys.2 hrest]

theorem insert_of_notMem (h : key ∉ entries.map (·.1)) (value : α) :
    entries.insert key value = entries ++ [(key, value)] := by
  induction entries with
  | nil => rfl
  | cons entry rest ih =>
      rw [List.map_cons, List.mem_cons, not_or] at h
      simp only [insert, if_neg (Ne.symm h.1), ih h.2, List.cons_append]

theorem get?_append_of_notMem (h : key ∉ entries.map (·.1)) (others : Keyed α) :
    get? (entries ++ others) key = others.get? key := by
  induction entries with
  | nil => rfl
  | cons entry rest ih =>
      rw [List.map_cons, List.mem_cons, not_or] at h
      simp only [List.cons_append, get?, if_neg (Ne.symm h.1), ih h.2]

theorem insert_append_of_notMem (h : key ∉ entries.map (·.1)) (others : Keyed α) (value : α) :
    insert (entries ++ others) key value = entries ++ others.insert key value := by
  induction entries with
  | nil => rfl
  | cons entry rest ih =>
      rw [List.map_cons, List.mem_cons, not_or] at h
      simp only [List.cons_append, insert, if_neg (Ne.symm h.1), ih h.2]

/-- Entries with different keys that are inserted one by one stay in their order. -/
theorem foldl_insert (kept : Keyed α) (h : ((kept ++ entries).map (·.1)).Nodup) :
    entries.foldl (fun collected entry => insert collected entry.1 entry.2) kept =
      kept ++ entries := by
  induction entries generalizing kept with
  | nil => simp
  | cons entry entries ih =>
      have hnew : entry.1 ∉ kept.map (·.1) := by
        rw [List.map_append, List.nodup_append] at h
        intro hmem
        exact h.2.2 entry.1 hmem entry.1 (by simp) rfl
      rw [List.foldl_cons, insert_of_notMem hnew, ih]
      · simp
      · simpa using h

theorem keys_insert_of_mem (h : key ∈ entries.map (·.1)) (value : α) :
    (entries.insert key value).map (·.1) = entries.map (·.1) := by
  induction entries with
  | nil => cases h
  | cons entry rest ih =>
      simp only [insert]
      split
      · rfl
      · next hne =>
          have hrest : key ∈ rest.map (·.1) :=
            (List.mem_cons.mp h).resolve_left (Ne.symm hne)
          rw [List.map_cons, List.map_cons, ih hrest]

theorem mem_insert {entry : String × α} (h : entry ∈ entries.insert key value) :
    entry = (key, value) ∨ entry ∈ entries := by
  induction entries with
  | nil => exact .inl (List.mem_singleton.mp h)
  | cons other rest ih =>
      simp only [insert] at h
      split at h
      · next hkey =>
          rcases List.mem_cons.mp h with heq | hrest
          · exact .inl (hkey ▸ heq)
          · exact .inr (List.mem_cons_of_mem _ hrest)
      · rcases List.mem_cons.mp h with heq | hrest
        · exact .inr (heq ▸ List.mem_cons_self)
        · exact (ih hrest).imp_right (List.mem_cons_of_mem _)

theorem mapAt_of_notMem (h : key ∉ entries.map (·.1)) (f : α → α) :
    entries.mapAt key f = entries := by
  have hsame : ∀ entry ∈ entries,
      (if entry.1 = key then (entry.1, f entry.2) else entry) = entry := by
    rintro entry hentry
    rw [if_neg]
    rintro rfl
    exact h (List.mem_map_of_mem hentry)
  exact (List.map_congr_left hsame).trans (List.map_id' entries)

/-- Where each key stands once, changing a value is putting the new value in its place. -/
theorem mapAt_eq_insert (hkeys : (entries.map (·.1)).Nodup)
    (hget : entries.get? key = some value) (f : α → α) :
    entries.mapAt key f = entries.insert key (f value) := by
  induction entries with
  | nil => cases hget
  | cons entry rest ih =>
      obtain ⟨k, v⟩ := entry
      rw [List.map_cons, List.nodup_cons] at hkeys
      simp only [get?] at hget
      by_cases hkey : k = key
      · rw [if_pos hkey, Option.some.injEq] at hget
        subst hkey hget
        have hrest := mapAt_of_notMem hkeys.1 f
        rw [mapAt] at hrest
        simp only [mapAt, List.map_cons, insert, if_true, hrest]
      · rw [if_neg hkey] at hget
        have hrest := ih hkeys.2 hget
        rw [mapAt] at hrest
        simp only [mapAt, List.map_cons, insert, if_neg hkey, hrest]

/-- Each key stands once, and each value has the property. -/
structure Once (P : α → Prop) (entries : Keyed α) : Prop where
  keys : (entries.map (·.1)).Nodup
  values : ∀ entry ∈ entries, P entry.2

namespace Once

theorem nil : Once P ([] : Keyed α) := ⟨List.nodup_nil, by simp⟩

theorem of_get? (h : Once P entries) (hget : entries.get? key = some value) : P value :=
  h.values _ (mem_of_get?_eq_some hget)

theorem insert (h : Once P entries) (hvalue : P value) : Once P (entries.insert key value) where
  keys := by
    by_cases hmem : key ∈ entries.map (·.1)
    · rw [keys_insert_of_mem hmem]
      exact h.keys
    · rw [insert_of_notMem hmem, List.map_append, List.map_singleton, ← List.concat_eq_append]
      exact h.keys.concat hmem
  values := by
    intro entry hentry
    rcases mem_insert hentry with rfl | hmem
    · exact hvalue
    · exact h.values entry hmem

end Once

/-- The bytes of each key come before those of every later key. -/
def InByteOrder (entries : Keyed α) : Prop :=
  entries.Pairwise fun a b => Text.utf8 a.1 < Text.utf8 b.1

theorem inByteOrder_byKey (hkeys : (entries.map (·.1)).Nodup) : (byKey entries).InByteOrder := by
  have hne : (byKey entries).Pairwise fun a b => a.1 ≠ b.1 :=
    List.pairwise_map.mp (((byKey_perm entries).map _).nodup_iff.mpr hkeys)
  refine ((byKey_sorted entries).and hne).imp fun ⟨hle, hne⟩ => ?_
  apply Text.utf8_lt_iff.mpr
  apply String.not_le.mp
  intro hge
  exact hne (String.le_antisymm hle hge)

/-- The order of the bytes of the keys leaves entries only one order. -/
theorem eq_of_perm_of_inByteOrder {others : Keyed α} (hperm : entries.Perm others)
    (hentries : entries.InByteOrder) (hothers : others.InByteOrder) : entries = others :=
  hperm.eq_of_pairwise (fun _ _ _ _ hlt hgt => absurd hgt (List.lt_asymm hlt)) hentries hothers

end ChatIntake.Keyed
