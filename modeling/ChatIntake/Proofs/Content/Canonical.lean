import ChatIntake.Content.Body
import ChatIntake.Proofs.Content.Grammar

/-!
# Canonical bodies

Which bodies are in canonical form. The settings have no say in that, and every
body that is put into canonical form becomes one of these. Doing it again, under
other settings too, therefore changes nothing, not even the order of two keys.
-/

namespace ChatIntake.Body

/-- An object that canonicalization leaves alone: a canonical text, or no part at all. -/
def Inert (fields : Json.Fields) : Prop :=
  (∃ s, fields = [("type", .string "input_text"), ("text", .string s)]) ∨
    ∀ part, ¬ Part.Denotes (.object fields) part

/-- The elements that a list in canonical form may have. -/
def IsCanonicalElement (element : Json) : Prop :=
  (∀ s, element ≠ .string s) ∧ ∀ fields, element = .object fields → Inert fields

/-- The bodies in canonical form. -/
inductive IsCanonical : Json → Prop
  | null : IsCanonical .null
  | bool (b : Bool) : IsCanonical (.bool b)
  | number (n : Number) : IsCanonical (.number n)
  | object {fields : Json.Fields} (hfields : Inert fields) : IsCanonical (.object fields)
  | array {elements : List Json} (helements : ∀ e ∈ elements, IsCanonicalElement e) :
      IsCanonical (.array elements)

theorem inert_tagged {tag : String} {fields : Json.Fields} (hfull : tag ≠ "")
    (htag : tag ∉ Part.grammarTags) : Inert (("type", .string tag) :: fields) :=
  .inr (Part.not_denotes_tagged hfull htag)

theorem isCanonicalElement_object {fields : Json.Fields} (h : Inert fields) :
    IsCanonicalElement (.object fields) := by
  constructor
  · intro s hs
    cases hs
  · intro other hother
    cases hother
    exact h

theorem isCanonicalElement_of_read?_eq_none {element : Json}
    (h : Part.read? element = none) : IsCanonicalElement element := by
  constructor
  · rintro s rfl
    cases h
  · rintro fields rfl
    exact .inr (Part.read?_eq_none_iff.mp h)

/-- A part is written as an object that canonicalization leaves alone. -/
theorem inert_write (settings : Settings) (part : Part) :
    ∃ fields, Part.write settings part = .object fields ∧ Inert fields := by
  cases part with
  | text s => exact ⟨_, rfl, .inl ⟨s, rfl⟩⟩
  | image url detail? =>
      cases detail? <;> exact ⟨_, rfl, inert_tagged (by decide) (by decide)⟩
  | audio data format => exact ⟨_, rfl, inert_tagged (by decide) (by decide)⟩
  | file attachment => exact ⟨_, rfl, inert_tagged (by decide) (by decide)⟩

theorem isCanonicalElement_write (settings : Settings) (part : Part) :
    IsCanonicalElement (Part.write settings part) := by
  obtain ⟨fields, hwrite, hinert⟩ := inert_write settings part
  rw [hwrite]
  exact isCanonicalElement_object hinert

theorem canonicalPart_of_denotes {settings : Settings} {element : Json} {part : Part}
    (h : Part.Denotes element part) :
    canonicalPart settings element = Part.write settings part := by
  simp only [canonicalPart, Part.read?_eq_some_iff.mpr h, Option.map_some, Option.getD_some]

theorem canonicalPart_of_read?_eq_none {settings : Settings} {element : Json}
    (h : Part.read? element = none) : canonicalPart settings element = element := by
  simp only [canonicalPart, h, Option.map_none, Option.getD_none]

/-- Whatever is put into canonical form as an element may stand there. -/
theorem isCanonicalElement_canonicalPart (settings : Settings) (element : Json) :
    IsCanonicalElement (canonicalPart settings element) := by
  cases h : Part.read? element with
  | none => simpa [canonicalPart, h] using isCanonicalElement_of_read?_eq_none h
  | some part => simpa [canonicalPart, h] using isCanonicalElement_write settings part

/-- An object stays an object in canonical form. -/
theorem canonicalPart_object (settings : Settings) (fields : Json.Fields) :
    ∃ others, canonicalPart settings (.object fields) = .object others := by
  cases h : Part.read? (.object fields) with
  | none => exact ⟨fields, by simp [canonicalPart, h]⟩
  | some part =>
      obtain ⟨others, hwrite, _⟩ := inert_write settings part
      exact ⟨others, by simp [canonicalPart, h, hwrite]⟩

theorem denotes_canonicalText (s : String) :
    Part.Denotes (.object [("type", .string "input_text"), ("text", .string s)]) (.text s) :=
  .text (.inr (.typed rfl (by decide))) rfl

/-- A part that may stand in canonical form is written as it stands. -/
theorem write_eq_self {settings : Settings} {element : Json} {part : Part}
    (hpart : Part.Denotes element part) (helement : IsCanonicalElement element) :
    Part.write settings part = element := by
  cases element with
  | string s => exact absurd rfl (helement.1 s)
  | object fields =>
      rcases helement.2 fields rfl with ⟨s, rfl⟩ | hnone
      · rw [hpart.unique (denotes_canonicalText s)]
        rfl
      · exact absurd hpart (hnone part)
  | null | bool | number | array => cases hpart

/-- An element is its own canonical form exactly if it may stand in canonical form. -/
theorem canonicalPart_eq_self_iff {settings : Settings} {element : Json} :
    canonicalPart settings element = element ↔ IsCanonicalElement element := by
  constructor
  · intro h
    rw [← h]
    exact isCanonicalElement_canonicalPart settings element
  · intro h
    cases hread : Part.read? element with
    | none => simp [canonicalPart, hread]
    | some part =>
        simpa [canonicalPart, hread] using write_eq_self (Part.read?_eq_some_iff.mp hread) h

/-- Whatever is put into canonical form is in canonical form. -/
theorem isCanonical_canonical (settings : Settings) (body : Json) :
    IsCanonical (canonical settings body) := by
  cases body with
  | string s =>
      apply IsCanonical.array
      intro e he
      rw [List.mem_singleton.mp he]
      exact isCanonicalElement_write settings (.text s)
  | array elements =>
      apply IsCanonical.array
      intro e he
      obtain ⟨element, _, rfl⟩ := List.mem_map.mp he
      exact isCanonicalElement_canonicalPart settings element
  | object fields =>
      have h := isCanonicalElement_canonicalPart settings (.object fields)
      obtain ⟨others, hothers⟩ := canonicalPart_object settings fields
      change IsCanonical (canonicalPart settings (.object fields))
      rw [hothers] at h ⊢
      exact .object (h.2 others rfl)
  | null => exact .null
  | bool b => exact .bool b
  | number n => exact .number n

/-- A body is its own canonical form exactly if it is in canonical form. -/
theorem canonical_eq_self_iff {settings : Settings} {body : Json} :
    canonical settings body = body ↔ IsCanonical body := by
  constructor
  · intro h
    rw [← h]
    exact isCanonical_canonical settings body
  · intro h
    cases h with
    | null | bool | number => rfl
    | object hfields => exact canonicalPart_eq_self_iff.mpr (isCanonicalElement_object hfields)
    | @array elements helements =>
        have hmap : elements.map (canonicalPart settings) = elements.map id :=
          List.map_inj_left.mpr fun e he => canonicalPart_eq_self_iff.mpr (helements e he)
        simpa [canonical] using hmap

theorem canonical_canonical (first second : Settings) (body : Json) :
    canonical second (canonical first body) = canonical first body :=
  canonical_eq_self_iff.mpr (isCanonical_canonical first body)

theorem canonicalTurn_canonicalTurn (first second : Settings) (fields : Json.Fields) :
    canonicalTurn second (canonicalTurn first fields) = canonicalTurn first fields := by
  have h : canonical second ∘ canonical first = canonical first :=
    funext (canonical_canonical first second)
  rw [canonicalTurn, canonicalTurn, Keyed.mapAt_mapAt, h]

/-- Canonicalization touches no field of a message but its body. -/
theorem get?_canonicalTurn_of_ne (settings : Settings) (fields : Json.Fields) {key : String}
    (hkey : key ≠ "content") :
    (canonicalTurn settings fields).get? key = fields.get? key := by
  simp [canonicalTurn, Keyed.get?_mapAt, hkey]

/-- Canonicalization settles a body at once, whatever settings follow, and the
bodies it leaves alone are those in canonical form. -/
theorem canonical_settles :
    (∀ (first second : Settings) (body : Json),
      canonical second (canonical first body) = canonical first body) ∧
    ∀ (settings : Settings) (body : Json),
      canonical settings body = body ↔ IsCanonical body :=
  ⟨canonical_canonical, fun _ _ => canonical_eq_self_iff⟩

/-- A part with its keys in another order is not in canonical form yet. -/
example : canonical {} (.object [("text", .string "a"), ("type", .string "input_text")]) =
    .object [("type", .string "input_text"), ("text", .string "a")] := by
  decide

end ChatIntake.Body
