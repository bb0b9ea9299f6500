import ChatIntake.Content.Part

/-!
# The grammar of parts

Which elements of a body are parts, and which part each of them is. The grammar
speaks of the fields of an element alone; reading finds exactly the parts of the
grammar, and so no element is two parts at once.
-/

namespace ChatIntake.Part

/-- The values under `type` that leave the tag of a part to be inferred. -/
def untyped : List (Option Json) :=
  [none, some .null, some (.bool false), some (.string "")]

/-- The tag of a part is its type, or `text` if it has that field and its type
says nothing. -/
inductive TaggedAs (part : Json.Fields) : String → Prop
  | typed {tag : String} (htype : part.get? "type" = some (.string tag)) (hfull : tag ≠ "") :
      TaggedAs part tag
  | inferred (htype : part.get? "type" ∈ untyped) (htext : (part.get? "text").isSome) :
      TaggedAs part "text"

theorem tag?_eq_some_iff {part : Json.Fields} {tag : String} :
    tag? part = some tag ↔ TaggedAs part tag := by
  constructor
  · intro h
    simp only [tag?] at h
    split at h
    case h_1 htype | h_2 htype | h_3 htype =>
      obtain ⟨htext, htag⟩ := Option.ite_none_right_eq_some.mp h
      cases htag
      exact .inferred (by simp [untyped, htype]) htext
    case h_4 word htype =>
      by_cases hword : word = ""
      · subst hword
        obtain ⟨htext, htag⟩ := Option.ite_none_right_eq_some.mp h
        cases htag
        exact .inferred (by simp [untyped, htype]) htext
      · have hw : word.isEmpty = false := String.isEmpty_eq_false_iff.mpr hword
        simp only [hw, Bool.false_eq_true, if_false, Option.some.injEq] at h
        subst h
        exact .typed htype hword
    case h_5 => cases h
  · intro h
    cases h with
    | typed htype hfull => simp [tag?, htype, hfull]
    | inferred htype htext =>
        simp only [untyped, List.mem_cons, List.not_mem_nil, or_false] at htype
        rcases htype with htype | htype | htype | htype <;> simp [tag?, htype, htext]

/-- A part that begins with its tag has no other. -/
theorem taggedAs_tagged_iff {tag other : String} {fields : Json.Fields} (hfull : tag ≠ "") :
    TaggedAs (("type", .string tag) :: fields) other ↔ other = tag := by
  have htag : tag? (("type", .string tag) :: fields) = some tag := by
    simp [tag?, Keyed.get?, hfull]
  rw [← tag?_eq_some_iff, htag]
  exact ⟨fun h => (Option.some.inj h).symm, fun h => by rw [h]⟩

/-- The elements of a body that are parts, each with the part that it is. -/
inductive Denotes : Json → Part → Prop
  | string (s : String) : Denotes (.string s) (text s)
  | text {part : Json.Fields} {s : String}
      (htag : TaggedAs part "text" ∨ TaggedAs part "input_text")
      (htext : part.get? "text" = some (.string s)) :
      Denotes (.object part) (.text s)
  | imageLink {part : Json.Fields} {url : String} (htag : TaggedAs part "image_url")
      (hurl : part.get? "image_url" = some (.string url)) :
      Denotes (.object part) (image url none)
  | image {part object : Json.Fields} {url : String} (htag : TaggedAs part "image_url")
      (hobject : part.get? "image_url" = some (.object object))
      (hurl : object.get? "url" = some (.string url)) :
      Denotes (.object part) (.image url (object.text? "detail"))
  | audio {part object : Json.Fields} {data format : String}
      (htag : TaggedAs part "input_audio")
      (hobject : part.get? "input_audio" = some (.object object))
      (hdata : object.get? "data" = some (.string data))
      (hformat : object.get? "format" = some (.string format)) :
      Denotes (.object part) (.audio data format)
  | file {part : Json.Fields} (htag : TaggedAs part "file") :
      Denotes (.object part) (.file (.read (part.get? "file")))

/-- The tags that an object can have as a part of the grammar. -/
def grammarTags : List String := ["text", "input_text", "image_url", "input_audio", "file"]

theorem Denotes.exists_tag {fields : Json.Fields} {part : Part}
    (h : Denotes (.object fields) part) : ∃ tag ∈ grammarTags, TaggedAs fields tag := by
  cases h with
  | text htag =>
      rcases htag with htag | htag
      · exact ⟨_, by simp [grammarTags], htag⟩
      · exact ⟨_, by simp [grammarTags], htag⟩
  | imageLink htag | image htag | audio htag | file htag =>
      exact ⟨_, by simp [grammarTags], htag⟩

/-- An object whose type is none of these tags is no part. -/
theorem not_denotes_tagged {tag : String} {fields : Json.Fields} (hfull : tag ≠ "")
    (htag : tag ∉ grammarTags) (part : Part) : ¬ Denotes (tagged tag fields) part := by
  intro h
  obtain ⟨other, hother, htagged⟩ := h.exists_tag
  rw [(taggedAs_tagged_iff hfull).mp htagged] at hother
  exact htag hother

theorem image?_eq_some_iff {value? : Option Json} {part : Part} :
    image? value? = some part ↔
      (∃ url, value? = some (.string url) ∧ part = image url none) ∨
        ∃ (object : Json.Fields) (url : String), value? = some (.object object) ∧
          object.get? "url" = some (.string url) ∧
          part = image url (object.text? "detail") := by
  constructor
  · intro h
    simp only [image?] at h
    split at h
    case h_1 url =>
      exact .inl ⟨url, rfl, (Option.some.inj h).symm⟩
    case h_2 object =>
      obtain ⟨url, hurl, hpart⟩ := Option.map_eq_some_iff.mp h
      exact .inr ⟨object, url, rfl, Json.Fields.text?_eq_some_iff.mp hurl, hpart.symm⟩
    case h_3 => cases h
  · rintro (⟨url, rfl, rfl⟩ | ⟨object, url, rfl, hurl, rfl⟩)
    · rfl
    · simp [image?, Json.Fields.text?_eq_some_iff.mpr hurl]

theorem audio?_eq_some_iff {value? : Option Json} {part : Part} :
    audio? value? = some part ↔
      ∃ (object : Json.Fields) (data format : String), value? = some (.object object) ∧
        object.get? "data" = some (.string data) ∧
        object.get? "format" = some (.string format) ∧ part = audio data format := by
  constructor
  · intro h
    simp only [audio?] at h
    split at h
    · cases h
    · next object hobject =>
        split at h
        · next data format hdata hformat =>
            exact ⟨object, data, format, Json.bind_fields?_eq_some_iff.mp hobject,
              Json.Fields.text?_eq_some_iff.mp hdata, Json.Fields.text?_eq_some_iff.mp hformat,
              (Option.some.inj h).symm⟩
        · cases h
  · rintro ⟨object, data, format, rfl, hdata, hformat, rfl⟩
    simp [audio?, Json.fields?, Json.Fields.text?_eq_some_iff.mpr hdata,
      Json.Fields.text?_eq_some_iff.mpr hformat]

/-- What is read from an object of some tag is a part of the grammar. -/
theorem denotes_of_ofTag? {fields : Json.Fields} {tag : String} {part : Part}
    (htag : TaggedAs fields tag) (h : ofTag? fields tag = some part) :
    Denotes (.object fields) part := by
  simp only [ofTag?] at h
  split at h
  case isTrue ht =>
    obtain ⟨s, hs, rfl⟩ := Option.map_eq_some_iff.mp h
    have htags : TaggedAs fields "text" ∨ TaggedAs fields "input_text" := by
      rcases ht with rfl | rfl
      · exact .inl htag
      · exact .inr htag
    exact .text htags (Json.Fields.text?_eq_some_iff.mp hs)
  split at h
  case isTrue ht =>
    subst ht
    rcases image?_eq_some_iff.mp h with ⟨url, hurl, rfl⟩ | ⟨object, url, hobject, hurl, rfl⟩
    · exact .imageLink htag hurl
    · exact .image htag hobject hurl
  split at h
  case isTrue ht =>
    subst ht
    obtain ⟨object, data, format, hobject, hdata, hformat, rfl⟩ := audio?_eq_some_iff.mp h
    exact .audio htag hobject hdata hformat
  split at h
  case isTrue ht =>
    subst ht
    cases h
    exact .file htag
  case isFalse => cases h

/-- An element is read as a part exactly if it is that part by the grammar. -/
theorem read?_eq_some_iff {element : Json} {part : Part} :
    read? element = some part ↔ Denotes element part := by
  constructor
  · intro h
    cases element with
    | string s =>
        cases h
        exact .string s
    | object fields =>
        obtain ⟨tag, htag, hpart⟩ := Option.bind_eq_some_iff.mp h
        exact denotes_of_ofTag? (tag?_eq_some_iff.mp htag) hpart
    | null | bool | number | array => cases h
  · intro h
    -- Every constructor but the first fixes the tag, and with it the branch taken.
    cases h with
    | string => rfl
    | text htag htext =>
        rcases htag with htag | htag <;>
          simp [read?, tag?_eq_some_iff.mpr htag, ofTag?, Json.Fields.text?_eq_some_iff.mpr htext]
    | imageLink htag hurl =>
        simp [read?, tag?_eq_some_iff.mpr htag, ofTag?, hurl, image?]
    | image htag hobject hurl =>
        simp [read?, tag?_eq_some_iff.mpr htag, ofTag?, hobject, image?,
          Json.Fields.text?_eq_some_iff.mpr hurl]
    | audio htag hobject hdata hformat =>
        have haudio := audio?_eq_some_iff.mpr ⟨_, _, _, hobject, hdata, hformat, rfl⟩
        simp [read?, tag?_eq_some_iff.mpr htag, ofTag?, haudio]
    | file htag => simp [read?, tag?_eq_some_iff.mpr htag, ofTag?]

/-- No element is two parts. -/
theorem Denotes.unique {element : Json} {a b : Part} (ha : Denotes element a)
    (hb : Denotes element b) : a = b := by
  rw [← read?_eq_some_iff] at ha hb
  exact Option.some.inj (ha.symm.trans hb)

theorem read?_eq_none_iff {element : Json} :
    read? element = none ↔ ∀ part, ¬ Denotes element part := by
  simp only [← read?_eq_some_iff]
  exact Option.eq_none_iff_forall_ne_some

end ChatIntake.Part
