import ChatIntake.Proofs.Content.Mime

/-!
# What becomes of the elements of a body

One rule for each kind of part that is known, with the form that it is given, field by
field. Exactly one of the rules applies to an element, or none does and the element is kept
as it is. No element of a body is lost, and none is made into two.
-/

namespace ChatIntake

/-- The mime type that an audio format goes by: the one configured, else the one that is
common for the format, else one that is named after it. -/
inductive Settings.GoesBy (settings : Settings) : String → String → Prop
  | configured {format mime : String} (hmime : settings.audioMimes.get? format = some mime) :
      GoesBy settings format mime
  | wav (hnone : settings.audioMimes.get? "wav" = none) : GoesBy settings "wav" "audio/wav"
  | mp3 (hnone : settings.audioMimes.get? "mp3" = none) : GoesBy settings "mp3" "audio/mpeg"
  | named {format : String} (hnone : settings.audioMimes.get? format = none)
      (hwav : format ≠ "wav") (hmp3 : format ≠ "mp3") :
      GoesBy settings format ("audio/" ++ format)

theorem Settings.goesBy_audioMime (settings : Settings) (format : String) :
    settings.GoesBy format (settings.audioMime format) := by
  cases hmime : settings.audioMimes.get? format with
  | some mime =>
      simp only [audioMime, hmime, Option.getD_some]
      exact .configured hmime
  | none =>
      simp only [audioMime, hmime, Option.getD_none, commonMime]
      split
      · next hwav =>
          subst hwav
          exact .wav hmime
      · next hwav =>
          split
          · next hmp3 =>
              subst hmp3
              exact .mp3 hmime
          · next hmp3 => exact .named hmime hwav hmp3

/-- A format goes by one mime type only. -/
theorem Settings.GoesBy.eq_audioMime {settings : Settings} {format mime : String}
    (h : settings.GoesBy format mime) : mime = settings.audioMime format := by
  cases h with
  | configured hmime => simp only [audioMime, hmime, Option.getD_some]
  | wav hnone | mp3 hnone => simp only [audioMime, hnone, Option.getD_none]; rfl
  | named hnone hwav hmp3 =>
      simp only [audioMime, hnone, Option.getD_none, commonMime, if_neg hwav, if_neg hmp3]

namespace Attachment

/-- What a canonical file says of the value under `file`: its identifier, its link, a link
with its bytes in it, or nothing. -/
inductive Becomes (settings : Settings) (file? : Option Json) : Json.Fields → Prop
  | stored {file : Json.Fields} {id : String} (hfile : file? = some (.object file))
      (hid : Describes file (.stored id)) :
      Becomes settings file? [("file_id", .string id)]
  | linked {file : Json.Fields} {url : String} (hfile : file? = some (.object file))
      (hurl : Describes file (.linked url)) :
      Becomes settings file? [("file_url", .string url)]
  | inline {file : Json.Fields} {data : String} {mime? : Option String}
      (hfile : file? = some (.object file)) (hinline : Describes file (.inline data mime?)) :
      Becomes settings file?
        [("file_url", .string ("data:" ++ mime?.getD settings.fileMime ++ ";base64," ++ data))]
  | absent (hnone : ∀ file, file? = some (.object file) → Describes file .absent) :
      Becomes settings file? []

theorem becomes_fields_read (settings : Settings) (file? : Option Json) :
    Becomes settings file? ((read file?).fields settings) := by
  cases hfile : file?.bind Json.fields? with
  | none =>
      simp only [read, hfile]
      refine .absent fun file hobject => ?_
      exact absurd hobject (Json.bind_fields?_eq_none_iff.mp hfile file)
  | some file =>
      have hobject := Json.bind_fields?_eq_some_iff.mp hfile
      have hdescribes := describes_ofFields file
      simp only [read, hfile]
      generalize ofFields file = attachment at hdescribes ⊢
      cases attachment with
      | stored id => exact .stored hobject hdescribes
      | linked url => exact .linked hobject hdescribes
      | inline data mime? => exact .inline hobject hdescribes
      | absent =>
          refine .absent fun other hother => ?_
          rw [hobject, Option.some.injEq, Json.object.injEq] at hother
          exact hother ▸ hdescribes

theorem Becomes.eq_fields_read {settings : Settings} {file? : Option Json}
    {fields : Json.Fields} (h : Becomes settings file? fields) :
    fields = (read file?).fields settings := by
  have hread : ∀ {file : Json.Fields} {attachment : Attachment},
      file? = some (.object file) → Describes file attachment → read file? = attachment := by
    rintro file attachment rfl hdescribes
    exact hdescribes.eq_ofFields.symm
  cases h with
  | stored hfile hid => rw [hread hfile hid]; rfl
  | linked hfile hurl => rw [hread hfile hurl]; rfl
  | inline hfile hinline => rw [hread hfile hinline]; rfl
  | absent hnone =>
      cases hfile : file?.bind Json.fields? with
      | none => simp only [read, hfile]; rfl
      | some file =>
          have hobject := Json.bind_fields?_eq_some_iff.mp hfile
          rw [hread hobject (hnone file hobject)]
          rfl

end Attachment

namespace Body

open ChatIntake.Part (TaggedAs)

/-- The rules for the elements of a body, each with the form that an element is given. -/
inductive Becomes (settings : Settings) : Json → Json → Prop
  | string (s : String) :
      Becomes settings (.string s) (.object [("type", .string "input_text"), ("text", .string s)])
  | text {part : Json.Fields} {s : String}
      (htag : TaggedAs part "text" ∨ TaggedAs part "input_text")
      (htext : part.get? "text" = some (.string s)) :
      Becomes settings (.object part)
        (.object [("type", .string "input_text"), ("text", .string s)])
  | imageLink {part : Json.Fields} {url : String} (htag : TaggedAs part "image_url")
      (hurl : part.get? "image_url" = some (.string url)) :
      Becomes settings (.object part)
        (.object [("type", .string "input_image"), ("image_url", .string url)])
  | image {part image : Json.Fields} {url : String} (htag : TaggedAs part "image_url")
      (himage : part.get? "image_url" = some (.object image))
      (hurl : image.get? "url" = some (.string url))
      (hdetail : ∀ detail, image.get? "detail" ≠ some (.string detail)) :
      Becomes settings (.object part)
        (.object [("type", .string "input_image"), ("image_url", .string url)])
  | detailedImage {part image : Json.Fields} {url detail : String}
      (htag : TaggedAs part "image_url")
      (himage : part.get? "image_url" = some (.object image))
      (hurl : image.get? "url" = some (.string url))
      (hdetail : image.get? "detail" = some (.string detail)) :
      Becomes settings (.object part)
        (.object [("type", .string "input_image"), ("image_url", .string url),
          ("detail", .string detail)])
  | audio {part audio : Json.Fields} {data format mime : String}
      (htag : TaggedAs part "input_audio")
      (haudio : part.get? "input_audio" = some (.object audio))
      (hdata : audio.get? "data" = some (.string data))
      (hformat : audio.get? "format" = some (.string format))
      (hmime : settings.GoesBy format mime) :
      Becomes settings (.object part)
        (.object [("type", .string "input_file"),
          ("file_url", .string ("data:" ++ mime ++ ";base64," ++ data))])
  | file {part fields : Json.Fields} (htag : TaggedAs part "file")
      (hfields : Attachment.Becomes settings (part.get? "file") fields) :
      Becomes settings (.object part) (.object (("type", .string "input_file") :: fields))
  | kept {element : Json} (hnone : ∀ part, ¬ Part.Denotes element part) :
      Becomes settings element element

variable {settings : Settings} {element form : Json}

/-- A part is written in the form that its rule gives. -/
theorem becomes_write {part : Part} (h : Part.Denotes element part) :
    Becomes settings element (Part.write settings part) := by
  cases h with
  | string s => exact .string s
  | text htag htext => exact .text htag htext
  | imageLink htag hurl => exact .imageLink htag hurl
  | @image fields object url htag himage hurl =>
      cases hdetail : object.text? "detail" with
      | none => exact .image htag himage hurl (Json.Fields.text?_eq_none_iff.mp hdetail)
      | some detail =>
          exact .detailedImage htag himage hurl (Json.Fields.text?_eq_some_iff.mp hdetail)
  | audio htag haudio hdata hformat =>
      exact .audio htag haudio hdata hformat (settings.goesBy_audioMime _)
  | file htag => exact .file htag (Attachment.becomes_fields_read settings _)

theorem becomes_canonicalPart (settings : Settings) (element : Json) :
    Becomes settings element (canonicalPart settings element) := by
  cases hread : Part.read? element with
  | none =>
      rw [canonicalPart_of_read?_eq_none hread]
      exact .kept (Part.read?_eq_none_iff.mp hread)
  | some part =>
      have hpart := Part.read?_eq_some_iff.mp hread
      rw [canonicalPart_of_denotes hpart]
      exact becomes_write hpart

/-- An element has a canonical form by one rule only, and only one form by that rule. -/
theorem Becomes.eq_canonicalPart (h : Becomes settings element form) :
    form = canonicalPart settings element := by
  cases h with
  | string s => rfl
  | text htag htext => rw [canonicalPart_of_denotes (.text htag htext)]; rfl
  | imageLink htag hurl => rw [canonicalPart_of_denotes (.imageLink htag hurl)]; rfl
  | image htag himage hurl hdetail =>
      rw [canonicalPart_of_denotes (.image htag himage hurl),
        Json.Fields.text?_eq_none_iff.mpr hdetail]
      rfl
  | detailedImage htag himage hurl hdetail =>
      rw [canonicalPart_of_denotes (.image htag himage hurl),
        Json.Fields.text?_eq_some_iff.mpr hdetail]
      rfl
  | audio htag haudio hdata hformat hmime =>
      rw [canonicalPart_of_denotes (.audio htag haudio hdata hformat), hmime.eq_audioMime]
      rfl
  | file htag hfields =>
      rw [canonicalPart_of_denotes (.file htag), hfields.eq_fields_read]
      rfl
  | kept hnone =>
      exact (canonicalPart_of_read?_eq_none (Part.read?_eq_none_iff.mpr hnone)).symm

theorem canonicalPart_eq_iff : canonicalPart settings element = form ↔
    Becomes settings element form := by
  constructor
  · rintro rfl
    exact becomes_canonicalPart settings element
  · intro h
    exact h.eq_canonicalPart.symm

/-- The elements of the canonical form of a body are the canonical forms of its elements. -/
theorem elements_canonical (settings : Settings) (body : Json) :
    elements (canonical settings body) = (elements body).map (canonicalPart settings) := by
  cases body with
  | string s => rfl
  | array elements => rfl
  | object fields =>
      obtain ⟨others, hothers⟩ := canonicalPart_object settings fields
      simp only [canonical, elements, hothers, List.map_cons, List.map_nil]
  | null | bool | number => rfl

/-- The elements of a body are rewritten one by one, each by its rule. -/
theorem forall₂_becomes_canonical (settings : Settings) (body : Json) :
    List.Forall₂ (Becomes settings) (elements body) (elements (canonical settings body)) := by
  rw [elements_canonical, List.forall₂_map_right_iff]
  exact List.forall₂_same.mpr fun element _ => becomes_canonicalPart settings element

end Body

end ChatIntake
