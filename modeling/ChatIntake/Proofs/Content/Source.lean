import ChatIntake.Proofs.Content.Rewriting

/-!
# The source of a file

A file may say in several ways at once where its bytes are, and the first way that it has is
the one that counts. The canonical form depends on that source alone: the ways after it and
every other field may be anything. An identifier, a link and no source at all are kept apart
in the canonical form, while bytes given inline become a link like any other.
-/

namespace ChatIntake

namespace Attachment

/-- Two values under `file` whose bytes are found in the same place. -/
inductive SameSource (settings : Settings) : Option Json → Option Json → Prop
  | stored {file other : Json.Fields} {id : String} (hfile : Describes file (.stored id))
      (hother : Describes other (.stored id)) :
      SameSource settings (some (.object file)) (some (.object other))
  | linked {file other : Json.Fields} {url : String} (hfile : Describes file (.linked url))
      (hother : Describes other (.linked url)) :
      SameSource settings (some (.object file)) (some (.object other))
  | inline {file other : Json.Fields} {data : String} {mime? otherMime? : Option String}
      (hfile : Describes file (.inline data mime?))
      (hother : Describes other (.inline data otherMime?))
      (hmime : mime?.getD settings.fileMime = otherMime?.getD settings.fileMime) :
      SameSource settings (some (.object file)) (some (.object other))
  | absent {file? other? : Option Json}
      (hfile : ∀ file, file? = some (.object file) → Describes file .absent)
      (hother : ∀ other, other? = some (.object other) → Describes other .absent) :
      SameSource settings file? other?

/-- The ways in which a canonical file leads to its bytes. -/
inductive Route where
  | identifier
  | link
  | nowhere
deriving DecidableEq

/-- The way that the source of a file is given in canonical form. -/
inductive Takes : Option Json → Route → Prop
  | stored {file : Json.Fields} {id : String} (hfile : Describes file (.stored id)) :
      Takes (some (.object file)) .identifier
  | linked {file : Json.Fields} {url : String} (hfile : Describes file (.linked url)) :
      Takes (some (.object file)) .link
  | inline {file : Json.Fields} {data : String} {mime? : Option String}
      (hfile : Describes file (.inline data mime?)) : Takes (some (.object file)) .link
  | absent {file? : Option Json}
      (hfile : ∀ file, file? = some (.object file) → Describes file .absent) :
      Takes file? .nowhere

/-- A form that leads to bytes in one way only. -/
structure Leads (form : Json.Fields) (route : Route) : Prop where
  identifier_iff : (form.get? "file_id").isSome ↔ route = .identifier
  link_iff : (form.get? "file_url").isSome ↔ route = .link

theorem Leads.unique {form : Json.Fields} {route other : Route} (h : Leads form route)
    (hother : Leads form other) : route = other := by
  have hid : route = .identifier ↔ other = .identifier :=
    h.identifier_iff.symm.trans hother.identifier_iff
  have hlink : route = .link ↔ other = .link := h.link_iff.symm.trans hother.link_iff
  revert hid hlink
  cases route <;> cases other <;> decide

theorem Leads.not_both {form : Json.Fields} {route : Route} (h : Leads form route) :
    ¬ ((form.get? "file_id").isSome ∧ (form.get? "file_url").isSome) := by
  rintro ⟨hid, hlink⟩
  rw [h.identifier_iff] at hid
  rw [h.link_iff, hid] at hlink
  cases hlink

variable {settings : Settings} {file? other? : Option Json}

/-- Values with the same source become the same fields. -/
theorem SameSource.exists_becomes (h : SameSource settings file? other?) :
    ∃ fields, Becomes settings file? fields ∧ Becomes settings other? fields := by
  cases h with
  | stored hfile hother => exact ⟨_, .stored rfl hfile, .stored rfl hother⟩
  | linked hfile hother => exact ⟨_, .linked rfl hfile, .linked rfl hother⟩
  | inline hfile hother hmime =>
      refine ⟨_, .inline rfl hfile, ?_⟩
      rw [hmime]
      exact .inline rfl hother
  | absent hfile hother => exact ⟨_, .absent hfile, .absent hother⟩

/-- The fields that a value becomes lead to the bytes in the way of its source. -/
theorem Takes.exists_becomes {route : Route} (settings : Settings) (h : Takes file? route) :
    ∃ fields, Becomes settings file? fields ∧ Leads (("type", .string "input_file") :: fields)
      route := by
  cases h with
  | stored hfile =>
      refine ⟨_, .stored rfl hfile, ?_⟩
      constructor <;> simp [Keyed.get?]
  | linked hfile =>
      refine ⟨_, .linked rfl hfile, ?_⟩
      constructor <;> simp [Keyed.get?]
  | inline hfile =>
      refine ⟨_, .inline rfl hfile, ?_⟩
      constructor <;> simp [Keyed.get?]
  | absent hfile =>
      refine ⟨_, .absent hfile, ?_⟩
      constructor <;> simp [Keyed.get?]

theorem exists_takes (file? : Option Json) : ∃ route, Takes file? route := by
  have h := becomes_fields_read {} file?
  generalize (read file?).fields {} = fields at h
  cases h with
  | stored hfile hid =>
      subst hfile
      exact ⟨_, .stored hid⟩
  | linked hfile hurl =>
      subst hfile
      exact ⟨_, .linked hurl⟩
  | inline hfile hinline =>
      subst hfile
      exact ⟨_, .inline hinline⟩
  | absent hnone => exact ⟨_, .absent hnone⟩

end Attachment

namespace Body

open Attachment
open ChatIntake.Part (TaggedAs tagged)

variable {settings : Settings} {part other : Json.Fields}

theorem canonicalPart_of_becomes (htag : TaggedAs part "file") {fields : Json.Fields}
    (h : Attachment.Becomes settings (part.get? "file") fields) :
    canonicalPart settings (.object part) = tagged "input_file" fields :=
  canonicalPart_eq_iff.mpr (.file htag h)

/-- The canonical form of a file leads to the bytes in the way of its source. -/
theorem canonicalPart_leads (settings : Settings) (htag : TaggedAs part "file") {route : Route}
    (h : Takes (part.get? "file") route) :
    ∃ form, canonicalPart settings (.object part) = .object form ∧ Leads form route := by
  obtain ⟨fields, hfields, hleads⟩ := h.exists_becomes settings
  exact ⟨_, canonicalPart_of_becomes htag hfields, hleads⟩

/-- The canonical form of a file depends on the source of its bytes and on nothing else, and
forms that lead to the bytes in different ways are different. No form leads to them in two. -/
theorem canonicalPart_file_by_source (htag : TaggedAs part "file")
    (hother : TaggedAs other "file") :
    (SameSource settings (part.get? "file") (other.get? "file") →
      canonicalPart settings (.object part) = canonicalPart settings (.object other)) ∧
    (∀ route otherRoute, Takes (part.get? "file") route → Takes (other.get? "file") otherRoute →
      route ≠ otherRoute →
        canonicalPart settings (.object part) ≠ canonicalPart settings (.object other)) ∧
    ∃ form : Json.Fields, canonicalPart settings (.object part) = .object form ∧
      ¬ ((form.get? "file_id").isSome ∧ (form.get? "file_url").isSome) := by
  refine ⟨fun hsame => ?_, fun route otherRoute hroute hotherRoute hne hforms => ?_, ?_⟩
  · obtain ⟨fields, hfields, hotherFields⟩ := hsame.exists_becomes
    rw [canonicalPart_of_becomes htag hfields, canonicalPart_of_becomes hother hotherFields]
  · obtain ⟨form, hform, hleads⟩ := canonicalPart_leads settings htag hroute
    obtain ⟨otherForm, hotherForm, hotherLeads⟩ := canonicalPart_leads settings hother hotherRoute
    rw [hform, hotherForm, Json.object.injEq] at hforms
    rw [hforms] at hleads
    exact hne (hleads.unique hotherLeads)
  · obtain ⟨route, hroute⟩ := exists_takes (part.get? "file")
    obtain ⟨form, hform, hleads⟩ := canonicalPart_leads settings htag hroute
    exact ⟨form, hform, hleads.not_both⟩

/-- A file with bytes under the second key, past an identifier and a link that are none. -/
def plainFile : Json.Fields := [("type", .string "file"), ("file", .object [
  ("file_id", .string ""), ("file_url", .null), ("file_data", .null), ("data", .string "QUJD"),
  ("filename", .string "a.txt")])]

/-- A file with the same bytes under the first key, others under the second, and a mime type. -/
def namedFile : Json.Fields := [("type", .string "file"), ("file", .object [
  ("data", .string "REVG"), ("mime_type", .string ""), ("content_type", .string "text/plain"),
  ("file_data", .string "QUJD")]), ("name", .string "b")]

/-- A file with these bytes as well, which do not count beside its identifier. -/
def storedFile : Json.Fields := [("type", .string "file"), ("file", .object [
  ("file_data", .string "QUJD"), ("file_id", .string "f")])]

theorem canonicalPart_file_by_source_plainFile :
    canonicalPart { fileMime := "text/plain" } (.object plainFile) =
        canonicalPart { fileMime := "text/plain" } (.object namedFile) ∧
      canonicalPart {} (.object plainFile) ≠ canonicalPart {} (.object storedFile) := by
  have hplain : TaggedAs plainFile "file" := .typed rfl (by decide)
  have hnamed : TaggedAs namedFile "file" := .typed rfl (by decide)
  have hstored : TaggedAs storedFile "file" := .typed rfl (by decide)
  constructor
  · have hsame : SameSource { fileMime := "text/plain" } (plainFile.get? "file")
        (namedFile.get? "file") :=
      .inline (describes_ofFields _) (describes_ofFields _) rfl
    exact (canonicalPart_file_by_source hplain hnamed).1 hsame
  · have hlink : Takes (plainFile.get? "file") .link := .inline (describes_ofFields _)
    have hid : Takes (storedFile.get? "file") .identifier := .stored (describes_ofFields _)
    exact (canonicalPart_file_by_source hplain hstored).2.1 _ _ hlink hid (by decide)

end Body

end ChatIntake
