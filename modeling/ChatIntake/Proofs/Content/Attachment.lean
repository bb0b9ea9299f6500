import ChatIntake.Content.Attachment

/-!
# Attachments by their fields

Which fields of a file make it which attachment: an identifier before a link, a link
before bytes given inline, and nothing else. Empty identifiers, links and mime types
are passed over as if they were missing.
-/

namespace ChatIntake.Attachment

/-- The bytes given inline are the text under `file_data`, and without one there the
text under `data`. -/
inductive GivesData (file : Json.Fields) : String → Prop
  | fileData {data : String} (hdata : file.get? "file_data" = some (.string data)) :
      GivesData file data
  | data {data : String} (hnone : ∀ s, file.get? "file_data" ≠ some (.string s))
      (hdata : file.get? "data" = some (.string data)) : GivesData file data

/-- The mime type that a file names, or none. -/
def NamesMime (file : Json.Fields) (mime? : Option String) : Prop :=
  ∀ mime, mime? = some mime ↔ file.FirstFullText ["mime_type", "content_type"] mime

/-- The attachment that fields describe. -/
inductive Describes (file : Json.Fields) : Attachment → Prop
  | stored {id : String} (hid : file.get? "file_id" = some (.string id)) (hfull : id ≠ "") :
      Describes file (.stored id)
  | linked {url : String} (hid : ¬ file.HoldsFullText "file_id")
      (hurl : file.get? "file_url" = some (.string url)) (hfull : url ≠ "") :
      Describes file (.linked url)
  | inline {data : String} {mime? : Option String} (hid : ¬ file.HoldsFullText "file_id")
      (hurl : ¬ file.HoldsFullText "file_url") (hdata : GivesData file data)
      (hmime : NamesMime file mime?) : Describes file (.inline data mime?)
  | absent (hid : ¬ file.HoldsFullText "file_id") (hurl : ¬ file.HoldsFullText "file_url")
      (hdata : ∀ data, ¬ GivesData file data) : Describes file .absent

theorem or_text?_eq_some_iff {file : Json.Fields} {data : String} :
    (file.text? "file_data").or (file.text? "data") = some data ↔ GivesData file data := by
  constructor
  · intro h
    cases hfile : file.text? "file_data" with
    | none =>
        rw [hfile, Option.none_or] at h
        exact .data (Json.Fields.text?_eq_none_iff.mp hfile) (Json.Fields.text?_eq_some_iff.mp h)
    | some other =>
        rw [hfile, Option.some_or, Option.some.injEq] at h
        rw [h] at hfile
        exact .fileData (Json.Fields.text?_eq_some_iff.mp hfile)
  · intro h
    cases h with
    | fileData hdata => rw [Json.Fields.text?_eq_some_iff.mpr hdata, Option.some_or]
    | data hnone hdata =>
        rw [Json.Fields.text?_eq_none_iff.mpr hnone, Option.none_or]
        exact Json.Fields.text?_eq_some_iff.mpr hdata

theorem namesMime_or_fullText? (file : Json.Fields) :
    NamesMime file ((file.fullText? "mime_type").or (file.fullText? "content_type")) := by
  intro mime
  rw [← Json.Fields.findSome?_fullText?_eq_some_iff]
  simp only [List.findSome?_cons, List.findSome?_nil]
  cases file.fullText? "mime_type" <;> cases file.fullText? "content_type" <;> simp

/-- The attachment read from fields is the one that they describe. -/
theorem describes_ofFields (file : Json.Fields) : Describes file (ofFields file) := by
  simp only [ofFields]
  split
  · next id hid =>
      obtain ⟨hid, hfull⟩ := Json.Fields.fullText?_eq_some_iff.mp hid
      exact .stored hid hfull
  · next hid =>
      have hid := Json.Fields.fullText?_eq_none_iff.mp hid
      split
      · next url hurl =>
          obtain ⟨hurl, hfull⟩ := Json.Fields.fullText?_eq_some_iff.mp hurl
          exact .linked hid hurl hfull
      · next hurl =>
          have hurl := Json.Fields.fullText?_eq_none_iff.mp hurl
          split
          · next data hdata =>
              exact .inline hid hurl (or_text?_eq_some_iff.mp hdata) (namesMime_or_fullText? file)
          · next hdata =>
              refine .absent hid hurl fun data hgives => ?_
              rw [← or_text?_eq_some_iff, hdata] at hgives
              cases hgives

/-- A file names one mime type, or none. -/
theorem NamesMime.unique {file : Json.Fields} {mime? other? : Option String}
    (h : NamesMime file mime?) (hother : NamesMime file other?) : mime? = other? := by
  ext mime
  rw [h mime, hother mime]

/-- Fields describe no attachment but the one that is read from them. -/
theorem Describes.eq_ofFields {file : Json.Fields} {attachment : Attachment}
    (h : Describes file attachment) : attachment = ofFields file := by
  cases h with
  | stored hid hfull =>
      simp only [ofFields, Json.Fields.fullText?_eq_some_iff.mpr ⟨hid, hfull⟩]
  | linked hid hurl hfull =>
      simp only [ofFields, Json.Fields.fullText?_eq_none_iff.mpr hid,
        Json.Fields.fullText?_eq_some_iff.mpr ⟨hurl, hfull⟩]
  | inline hid hurl hdata hmime =>
      rw [hmime.unique (namesMime_or_fullText? file)]
      simp only [ofFields, Json.Fields.fullText?_eq_none_iff.mpr hid,
        Json.Fields.fullText?_eq_none_iff.mpr hurl, or_text?_eq_some_iff.mpr hdata]
  | absent hid hurl hdata =>
      have hnone : (file.text? "file_data").or (file.text? "data") = none := by
        apply Option.eq_none_iff_forall_ne_some.mpr
        intro data hgives
        exact hdata data (or_text?_eq_some_iff.mp hgives)
      simp only [ofFields, Json.Fields.fullText?_eq_none_iff.mpr hid,
        Json.Fields.fullText?_eq_none_iff.mpr hurl, hnone]

/-- Bytes given inline come from an object that describes them. -/
theorem describes_of_read_eq_inline {file? : Option Json} {data : String}
    {mime? : Option String} (h : read file? = .inline data mime?) :
    ∃ file : Json.Fields, file? = some (.object file) ∧ Describes file (.inline data mime?) := by
  simp only [read] at h
  split at h
  · cases h
  · next file hfile =>
      refine ⟨file, Json.bind_fields?_eq_some_iff.mp hfile, ?_⟩
      rw [← h]
      exact describes_ofFields file

end ChatIntake.Attachment
