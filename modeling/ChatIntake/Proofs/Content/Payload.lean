import ChatIntake.Proofs.Content.Mime

/-!
# Payloads of files

The bytes of a file that is given inline stand under one of two keys, in canonical form in
a link. Identifiers, links and mime types that are empty are passed over for those after
them. Bytes under the first key are not: empty as they are, they keep bytes under the
second from the link, and so a payload is lost exactly there.
-/

namespace ChatIntake

namespace Attachment

/-- The keys under which bytes are given inline, in their order. -/
def payloadKeys : List String := ["file_data", "data"]

variable {file : Json.Fields} {payload data other : String}

/-- A file gives the bytes of one key only. -/
theorem GivesData.unique (h : GivesData file data) (hother : GivesData file other) :
    data = other := by
  rw [← or_text?_eq_some_iff] at h hother
  exact Option.some.inj (h.symm.trans hother)

/-- The payload is given unless an empty text stands before it. -/
theorem givesData_payload (hpayload : file.FirstFullText payloadKeys payload)
    (hempty : file.get? "file_data" ≠ some (.string "")) : GivesData file payload := by
  cases hpayload with
  | here htext _ => exact .fileData htext
  | later hkey hlater =>
      cases hlater with
      | here htext _ =>
          refine .data (fun s hs => ?_) htext
          -- A text under the first key would not be empty, and so the payload itself.
          have hfull : s ≠ "" := fun h => hempty (h ▸ hs)
          exact hkey ⟨s, hs, hfull⟩
      | later _ hnone => cases hnone

/-- A file with bytes, and neither an identifier nor a link, is given inline. -/
theorem exists_inline (hid : ¬ file.HoldsFullText "file_id")
    (hurl : ¬ file.HoldsFullText "file_url") (hgives : GivesData file data) :
    ∃ mime?, ofFields file = .inline data mime? ∧ NamesMime file mime? := by
  -- The fields rule out every attachment but one of bytes, and there are no two such.
  have h := describes_ofFields file
  generalize ofFields file = attachment at h ⊢
  cases h with
  | stored hget hfull => exact absurd ⟨_, hget, hfull⟩ hid
  | linked _ hget hfull => exact absurd ⟨_, hget, hfull⟩ hurl
  | inline _ _ hdata hmime =>
      rw [hdata.unique hgives]
      exact ⟨_, rfl, hmime⟩
  | absent _ _ hnone => exact absurd hgives (hnone data)

end Attachment

namespace Part

theorem linkTo_injective {mime data other : String} (h : linkTo mime data = linkTo mime other) :
    data = other := by
  simp only [linkTo, Json.object.injEq, List.cons.injEq, Prod.mk.injEq, true_and, and_true,
    Json.string.injEq] at h
  exact String.append_right_inj _ |>.mp h

end Part

namespace Body

open Attachment ChatIntake.Part

/-- A file without identifier and link is linked by the bytes that it gives, under the mime
type that it names or that of the settings. -/
theorem canonicalPart_file {part file : Json.Fields} {data : String}
    (htag : TaggedAs part "file") (hfile : part.get? "file" = some (.object file))
    (hid : ¬ file.HoldsFullText "file_id") (hurl : ¬ file.HoldsFullText "file_url")
    (hgives : GivesData file data) :
    ∃ mime?, NamesMime file mime? ∧ ∀ settings : Settings,
      canonicalPart settings (.object part) = linkTo (mime?.getD settings.fileMime) data := by
  obtain ⟨mime?, hinline, hmime⟩ := exists_inline hid hurl hgives
  refine ⟨mime?, hmime, fun settings => ?_⟩
  rw [canonicalPart_of_denotes (.file htag), hfile]
  simp only [Attachment.read, Option.bind_some, Json.fields?, hinline]
  rfl

/-- The payload of a file without identifier and link is in its canonical form exactly if no
empty text stands under the first key for bytes, and otherwise there are no bytes in it. -/
theorem canonicalPart_file_payload {part file : Json.Fields} {payload : String}
    (htag : TaggedAs part "file") (hfile : part.get? "file" = some (.object file))
    (hid : ¬ file.HoldsFullText "file_id") (hurl : ¬ file.HoldsFullText "file_url")
    (hpayload : file.FirstFullText payloadKeys payload) :
    ∃ mime?, NamesMime file mime? ∧ ∀ settings : Settings,
      (canonicalPart settings (.object part) = linkTo (mime?.getD settings.fileMime) payload ↔
        file.get? "file_data" ≠ some (.string "")) ∧
      (file.get? "file_data" = some (.string "") →
        canonicalPart settings (.object part) = linkTo (mime?.getD settings.fileMime) "") := by
  by_cases hempty : file.get? "file_data" = some (.string "")
  · obtain ⟨mime?, hmime, hform⟩ := canonicalPart_file htag hfile hid hurl (.fileData hempty)
    refine ⟨mime?, hmime, fun settings => ⟨⟨?_, fun hne => absurd hempty hne⟩, fun _ => hform _⟩⟩
    intro hlink
    rw [hform settings] at hlink
    exact absurd (linkTo_injective hlink).symm hpayload.ne_empty
  · have hgives := givesData_payload hpayload hempty
    obtain ⟨mime?, hmime, hform⟩ := canonicalPart_file htag hfile hid hurl hgives
    exact ⟨mime?, hmime, fun settings => ⟨⟨fun _ => hempty, fun _ => hform settings⟩,
      fun h => absurd h hempty⟩⟩

/-- A file with bytes and a mime type under the second key for each. -/
def secondKeys : Json.Fields := [
  ("file_id", .string ""), ("file_url", .null), ("file_data", .number (.int 1)),
  ("data", .string "QUJD"), ("mime_type", .string ""), ("content_type", .string "text/plain")]

theorem canonicalPart_file_payload_secondKeys :
    ¬ secondKeys.HoldsFullText "file_id" ∧ ¬ secondKeys.HoldsFullText "file_url" ∧
      secondKeys.FirstFullText payloadKeys "QUJD" ∧
      canonicalPart {} (.object [("type", .string "file"), ("file", .object secondKeys)]) =
        linkTo "text/plain" "QUJD" := by
  have htag : TaggedAs [("type", .string "file"), ("file", .object secondKeys)] "file" :=
    .typed rfl (by decide)
  have hid : ¬ secondKeys.HoldsFullText "file_id" := Json.Fields.fullText?_eq_none_iff.mp rfl
  have hurl : ¬ secondKeys.HoldsFullText "file_url" := Json.Fields.fullText?_eq_none_iff.mp rfl
  have hpayload : secondKeys.FirstFullText payloadKeys "QUJD" :=
    Json.Fields.findSome?_fullText?_eq_some_iff.mp rfl
  have hplain : secondKeys.FirstFullText ["mime_type", "content_type"] "text/plain" :=
    Json.Fields.findSome?_fullText?_eq_some_iff.mp rfl
  obtain ⟨mime?, hmime, hform⟩ := canonicalPart_file_payload htag rfl hid hurl hpayload
  have hlink := (hform {}).1.mpr (show secondKeys.get? "file_data" ≠ some (.string "") by decide)
  rw [(hmime "text/plain").mpr hplain] at hlink
  exact ⟨hid, hurl, hpayload, hlink⟩

/-- Bytes under the second key are lost behind an empty text under the first. -/
theorem not_canonicalPart_file_payload_empty :
    ¬ ∃ before, canonicalPart {} (.object [("type", .string "file"), ("file", .object [
        ("file_data", .string ""), ("data", .string "QUJD")])]) =
      .object [("type", .string "input_file"),
        ("file_url", .string (before ++ ";base64," ++ "QUJD"))] := by
  rintro ⟨before, hform⟩
  have hempty : canonicalPart {} (.object [("type", .string "file"), ("file", .object [
      ("file_data", .string ""), ("data", .string "QUJD")])]) =
        linkTo "application/octet-stream" "" := rfl
  rw [hempty] at hform
  simp only [linkTo, Json.object.injEq, List.cons.injEq, Prod.mk.injEq, true_and, and_true,
    Json.string.injEq] at hform
  have hlast := congrArg (fun link => link.toList.getLast?) hform
  simp at hlast

end Body

end ChatIntake
