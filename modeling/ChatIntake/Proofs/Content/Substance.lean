import ChatIntake.Proofs.Content.Canonical

/-!
# Bodies that matter

Whether a body counts is judged on its canonical form. Here it is said of the body as it was
sent: which strings, and which elements of which lists, become something that counts.
-/

namespace ChatIntake.Body

/-- The values under `text` that let an object count which is kept as it is: none at all,
`null`, and texts that are not blank. -/
inductive TextPermits : Option Json → Prop
  | missing : TextPermits none
  | null : TextPermits (some .null)
  | string {s : String} (hs : Text.isBlank s = false) : TextPermits (some (.string s))

/-- The elements for which a list matters. -/
inductive MattersInList : Json → Prop
  | null : MattersInList .null
  | bool (b : Bool) : MattersInList (.bool b)
  | number (n : Number) : MattersInList (.number n)
  | array (elements : List Json) : MattersInList (.array elements)
  | string {s : String} (hs : Text.isBlank s = false) : MattersInList (.string s)
  | image {fields : Json.Fields} {url : String} {detail? : Option String}
      (himage : Part.Denotes (.object fields) (.image url detail?)) : MattersInList (.object fields)
  | audio {fields : Json.Fields} {data format : String}
      (haudio : Part.Denotes (.object fields) (.audio data format)) : MattersInList (.object fields)
  | file {fields : Json.Fields} {attachment : Attachment}
      (hfile : Part.Denotes (.object fields) (.file attachment)) : MattersInList (.object fields)
  | text {fields : Json.Fields} {s : String} (htext : Part.Denotes (.object fields) (.text s))
      (hs : Text.isBlank s = false) : MattersInList (.object fields)
  | other {fields : Json.Fields} (hkept : Inert fields) (hfull : fields ≠ [])
      (htext : TextPermits (fields.get? "text")) : MattersInList (.object fields)

/-- The bodies that matter, apart from those that are one object. -/
inductive Matters : Option Json → Prop
  | string {s : String} (hs : Text.isBlank s = false) : Matters (some (.string s))
  | list {elements : List Json} {element : Json} (helement : element ∈ elements)
      (hmatters : MattersInList element) : Matters (some (.array elements))

variable {settings : Settings} {fields : Json.Fields}

/-- A part that is written in canonical form counts, unless it is a blank text. -/
theorem countsInList_write_iff {part : Part} :
    countsInList (Part.write settings part) = true ↔
      ∀ s, part = .text s → Text.isBlank s = false := by
  cases part with
  | text s => simp [Part.write, Part.tagged, countsInList, Keyed.get?]
  | image url detail? => cases detail? <;> simp [Part.write, Part.tagged, countsInList, Keyed.get?]
  | audio data format => simp [Part.write, Part.tagged, countsInList, Keyed.get?]
  | file attachment =>
      cases attachment <;>
        simp [Part.write, Part.tagged, Attachment.fields, countsInList, Keyed.get?]

/-- An object counts as it stands if it has any field and its text permits it. -/
theorem countsInList_object_iff :
    countsInList (.object fields) = true ↔ fields ≠ [] ∧ TextPermits (fields.get? "text") := by
  constructor
  · intro h
    have hfull : fields ≠ [] := by
      rintro rfl
      cases h
    simp only [countsInList] at h
    split at h
    case h_1 s htext =>
      rw [Bool.not_eq_true'] at h
      exact ⟨hfull, htext ▸ .string h⟩
    case h_2 htext => exact ⟨hfull, htext ▸ .missing⟩
    case h_3 htext => exact ⟨hfull, htext ▸ .null⟩
    case h_4 => cases h
  · rintro ⟨hfull, htext⟩
    generalize hvalue : fields.get? "text" = value? at htext
    cases htext with
    | missing | null => simp only [countsInList, hvalue, List.isEmpty_eq_false_iff.mpr hfull]; rfl
    | string hs => simp only [countsInList, hvalue, hs]; rfl

/-- A part matters in a list unless it is a blank text. -/
theorem mattersInList_of_denotes {part : Part} (hpart : Part.Denotes (.object fields) part)
    (hblank : ∀ s, part = .text s → Text.isBlank s = false) : MattersInList (.object fields) := by
  cases part with
  | text s => exact .text hpart (hblank s rfl)
  | image url detail? => exact .image hpart
  | audio data format => exact .audio hpart
  | file attachment => exact .file hpart

theorem MattersInList.not_blank {s : String} (h : MattersInList (.object fields))
    (hpart : Part.Denotes (.object fields) (.text s)) : Text.isBlank s = false := by
  cases h with
  | image hother | audio hother | file hother => cases hpart.unique hother
  | text hother hs =>
      cases hpart.unique hother
      exact hs
  | other hkept _ htext =>
      -- What is kept may still be a part: a text that is in canonical form already.
      rcases hkept with ⟨t, rfl⟩ | hnone
      · cases hpart.unique (denotes_canonicalText t)
        cases htext with
        | string hs => exact hs
      · exact absurd hpart (hnone _)

theorem countsInList_canonicalPart_object_iff :
    countsInList (canonicalPart settings (.object fields)) = true ↔
      MattersInList (.object fields) := by
  cases hread : Part.read? (.object fields) with
  | none =>
      have hnone := Part.read?_eq_none_iff.mp hread
      rw [canonicalPart_of_read?_eq_none hread, countsInList_object_iff]
      constructor
      · rintro ⟨hfull, htext⟩
        exact .other (.inr hnone) hfull htext
      · intro h
        cases h with
        | image hpart | audio hpart | file hpart | text hpart => exact absurd hpart (hnone _)
        | other _ hfull htext => exact ⟨hfull, htext⟩
  | some part =>
      have hpart := Part.read?_eq_some_iff.mp hread
      rw [canonicalPart_of_denotes hpart, countsInList_write_iff]
      constructor
      · exact mattersInList_of_denotes hpart
      · rintro h s rfl
        exact h.not_blank hpart

/-- The canonical form of an element counts in a list exactly if the element matters. -/
theorem countsInList_canonicalPart_iff {element : Json} :
    countsInList (canonicalPart settings element) = true ↔ MattersInList element := by
  cases element with
  | object fields => exact countsInList_canonicalPart_object_iff
  | string s =>
      rw [canonicalPart_of_denotes (.string s), countsInList_write_iff]
      constructor
      · intro h
        exact .string (h s rfl)
      · intro h t ht
        cases ht
        cases h with
        | string hs => exact hs
  | null => exact ⟨fun _ => .null, fun _ => rfl⟩
  | bool b => exact ⟨fun _ => .bool b, fun _ => rfl⟩
  | number n => exact ⟨fun _ => .number n, fun _ => rfl⟩
  | array elements => exact ⟨fun _ => .array elements, fun _ => rfl⟩

/-- The canonical form of a body is substantial exactly if the body matters. -/
theorem isSubstantial_canonical_iff {body? : Option Json}
    (hobject : ∀ part, body? ≠ some (.object part)) :
    isSubstantial (body?.map (canonical settings)) = true ↔ Matters body? := by
  cases body? with
  | none => exact ⟨nofun, nofun⟩
  | some body =>
      cases body with
      | object part => exact absurd rfl (hobject part)
      | null | bool | number => exact ⟨nofun, nofun⟩
      | string s =>
          have hform : isSubstantial (some (canonical settings (.string s))) =
              !Text.isBlank s := by
            simp [canonical, isSubstantial, Part.write, Part.tagged, countsInList, Keyed.get?]
          rw [Option.map_some, hform, Bool.not_eq_true']
          constructor
          · exact .string
          · intro h
            cases h with
            | string hs => exact hs
      | array elements =>
          simp only [Option.map_some, canonical, isSubstantial, List.any_map, List.any_eq_true,
            Function.comp_apply, countsInList_canonicalPart_iff]
          constructor
          · rintro ⟨element, helement, hmatters⟩
            exact .list helement hmatters
          · intro h
            cases h with
            | list helement hmatters => exact ⟨_, helement, hmatters⟩

end ChatIntake.Body
