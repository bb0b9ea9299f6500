import ChatIntake.Proofs.Comparison
import ChatIntake.Proofs.Content.Attachment
import ChatIntake.Proofs.Content.Canonical

/-!
# Mime types from the settings

What the settings decide of the canonical form of a body: the mime type in the links of
audio, and of files that are given inline and name none. Everything else is the same
under all settings, and so is whether the body is substantial.
-/

namespace ChatIntake

namespace Part

/-- The elements whose link has a mime type from the settings, with the bytes in it. -/
inductive LacksMime : Json → String → Prop
  | audio {part object : Json.Fields} {data format : String}
      (htag : TaggedAs part "input_audio")
      (hobject : part.get? "input_audio" = some (.object object))
      (hdata : object.get? "data" = some (.string data))
      (hformat : object.get? "format" = some (.string format)) : LacksMime (.object part) data
  | file {part file : Json.Fields} {data : String} (htag : TaggedAs part "file")
      (hfile : part.get? "file" = some (.object file))
      (hinline : Attachment.Describes file (.inline data none)) : LacksMime (.object part) data

/-- The part that links to bytes of a mime type. -/
def linkTo (mime data : String) : Json :=
  .object [("type", .string "input_file"),
    ("file_url", .string ("data:" ++ mime ++ ";base64," ++ data))]

/-- Two canonical forms of an element: the same, or links to its bytes that differ in
their mime type if the element has none of its own. -/
inductive SameButMime (element : Json) : Json → Json → Prop
  | same (form : Json) : SameButMime element form form
  | link {data : String} (hlacks : LacksMime element data) (mime other : String) :
      SameButMime element (linkTo mime data) (linkTo other data)

theorem lacksMime_of_audio {element : Json} {data format : String}
    (h : Denotes element (.audio data format)) : LacksMime element data := by
  cases h with
  | audio htag hobject hdata hformat => exact .audio htag hobject hdata hformat

theorem lacksMime_of_file {element : Json} {data : String}
    (h : Denotes element (.file (.inline data none))) : LacksMime element data := by
  -- The attachment is that of the field, which `cases` sees only once it is a variable.
  generalize hattachment : Attachment.inline data none = attachment at h
  cases h with
  | file htag =>
      obtain ⟨file, hfile, hinline⟩ := Attachment.describes_of_read_eq_inline hattachment.symm
      exact .file htag hfile hinline

/-- A part is written alike under all settings, up to the mime type in its link. -/
theorem sameButMime_write (first second : Settings) {element : Json} {part : Part}
    (h : Denotes element part) :
    SameButMime element (write first part) (write second part) := by
  cases part with
  | text s => exact .same _
  | image url detail? => cases detail? <;> exact .same _
  | audio data format => exact .link (lacksMime_of_audio h) _ _
  | file attachment =>
      cases attachment with
      | stored | linked | absent => exact .same _
      | inline data mime? =>
          cases mime? with
          | none => exact .link (lacksMime_of_file h) _ _
          | some mime => exact .same _

/-- If settings agree on the mime type of files and on that of the format of an audio
part, they write the part alike. -/
theorem write_congr {first second : Settings} {part : Part}
    (hfile : first.fileMime = second.fileMime)
    (haudio : ∀ data format, part = .audio data format →
      first.audioMime format = second.audioMime format) :
    write first part = write second part := by
  cases part with
  | text s => rfl
  | image url detail? => cases detail? <;> rfl
  | audio data format => simp only [write, haudio data format rfl]
  | file attachment => cases attachment <;> simp only [write, Attachment.fields, hfile]

end Part

namespace Body

open Comparison

/-- Two canonical forms of a body, with the elements that they come from. -/
inductive SameButMime : Json → Json → Json → Prop
  | part {body form other : Json} (h : Part.SameButMime body form other) :
      SameButMime body form other
  | list {elements forms others : List Json} (h : Forks Part.SameButMime elements forms others) :
      SameButMime (.array elements) (.array forms) (.array others)

theorem sameButMime_canonicalPart (first second : Settings) (element : Json) :
    Part.SameButMime element (canonicalPart first element) (canonicalPart second element) := by
  cases hread : Part.read? element with
  | none =>
      rw [canonicalPart_of_read?_eq_none hread, canonicalPart_of_read?_eq_none hread]
      exact .same element
  | some part =>
      have hpart := Part.read?_eq_some_iff.mp hread
      rw [canonicalPart_of_denotes hpart, canonicalPart_of_denotes hpart]
      exact Part.sameButMime_write first second hpart

theorem sameButMime_canonical (first second : Settings) (body : Json) :
    SameButMime body (canonical first body) (canonical second body) := by
  cases body with
  | string s => exact .part (.same _)
  | array elements =>
      apply SameButMime.list
      exact forks_map elements fun e _ => sameButMime_canonicalPart first second e
  | null | bool | number | object => exact .part (sameButMime_canonicalPart first second _)

theorem countsInList_eq {element form other : Json} (h : Part.SameButMime element form other) :
    countsInList form = countsInList other := by
  cases h with
  | same => rfl
  | link => simp [Part.linkTo, countsInList, Keyed.get?]

/-- Whether a body is substantial does not depend on mime types. -/
theorem isSubstantial_eq {body form other : Json} (h : SameButMime body form other) :
    isSubstantial (some form) = isSubstantial (some other) := by
  cases h with
  | part h =>
      cases h with
      | same => rfl
      | link => simp [Part.linkTo, isSubstantial, Json.Fields.text?, Keyed.get?]
  | list h => exact h.any_eq fun _ _ _ hforms => countsInList_eq hforms

theorem isSubstantial_canonicalTurn (first second : Settings) (fields : Json.Fields) :
    isSubstantial ((canonicalTurn first fields).get? "content") =
      isSubstantial ((canonicalTurn second fields).get? "content") := by
  simp only [canonicalTurn, Keyed.get?_mapAt, if_true]
  cases fields.get? "content" with
  | none => rw [Option.map_none, Option.map_none]
  | some body =>
      rw [Option.map_some, Option.map_some]
      exact isSubstantial_eq (sameButMime_canonical first second body)

/-- The elements of a list, or the one element that any other body is. -/
def elements : Json → List Json
  | .array elements => elements
  | body => [body]

theorem canonicalPart_congr {first second : Settings} {element : Json}
    (hfile : first.fileMime = second.fileMime)
    (haudio : ∀ data format, Part.Denotes element (.audio data format) →
      first.audioMime format = second.audioMime format) :
    canonicalPart first element = canonicalPart second element := by
  cases hread : Part.read? element with
  | none => rw [canonicalPart_of_read?_eq_none hread, canonicalPart_of_read?_eq_none hread]
  | some part =>
      have hpart := Part.read?_eq_some_iff.mp hread
      rw [canonicalPart_of_denotes hpart, canonicalPart_of_denotes hpart]
      apply Part.write_congr hfile
      rintro data format rfl
      exact haudio data format hpart

/-- A body has one canonical form under settings that agree on the mime type of files and
on that of each format of its audio. -/
theorem canonical_congr {first second : Settings} {body : Json}
    (hfile : first.fileMime = second.fileMime)
    (haudio : ∀ element ∈ elements body, ∀ data format,
      Part.Denotes element (.audio data format) →
        first.audioMime format = second.audioMime format) :
    canonical first body = canonical second body := by
  cases body with
  | string s => rfl
  | array elements =>
      apply congrArg Json.array
      apply List.map_congr_left
      intro element helement
      exact canonicalPart_congr hfile (haudio element helement)
  | null | bool | number | object =>
      exact canonicalPart_congr hfile (haudio _ List.mem_cons_self)

end Body

end ChatIntake
