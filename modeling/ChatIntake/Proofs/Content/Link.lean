import ChatIntake.Proofs.Content.Rewriting
import Mathlib.Data.List.DropRight

/-!
# Links that hold bytes

A link that is made of bytes and their mime type is put together without any escape, and
either of them may hold the marks that stand between them. The bytes are encoded without a
comma, though, and so its last comma ends the mime type: the link tells both of them.
-/

namespace ChatIntake

namespace Text

/-- What stands after the last occurrence of a character; everything if there is none. -/
def afterLast (mark : Char) (text : String) : String :=
  String.ofList (text.toList.rtakeWhile (· ≠ mark))

/-- What stands before the last occurrence of a character; nothing if there is none. -/
def beforeLast (mark : Char) (text : String) : String :=
  String.ofList (text.toList.rdropWhile (· ≠ mark)).dropLast

variable {mark : Char}

theorem ne_of_mem_reverse {after : List Char} (h : mark ∉ after) :
    ∀ c ∈ after.reverse, decide (c ≠ mark) = true := by
  intro c hc
  apply decide_eq_true
  rintro rfl
  exact h (List.mem_reverse.mp hc)

theorem rtakeWhile_append_cons {after : List Char} (h : mark ∉ after) (before : List Char) :
    (before ++ mark :: after).rtakeWhile (· ≠ mark) = after := by
  rw [List.rtakeWhile, List.reverse_append, List.reverse_cons, List.append_assoc,
    List.takeWhile_append_of_pos (ne_of_mem_reverse h), List.singleton_append,
    List.takeWhile_cons_of_neg (by simp), List.append_nil, List.reverse_reverse]

theorem rdropWhile_append_cons {after : List Char} (h : mark ∉ after) (before : List Char) :
    (before ++ mark :: after).rdropWhile (· ≠ mark) = before ++ [mark] := by
  rw [List.rdropWhile, List.reverse_append, List.reverse_cons, List.append_assoc,
    List.dropWhile_append_of_pos (ne_of_mem_reverse h), List.singleton_append,
    List.dropWhile_cons_of_neg (by simp), List.reverse_cons, List.reverse_reverse]

/-- The last mark in a text stands where no mark follows, and cuts the text in two there. -/
theorem cut_at_last {after : String} (h : mark ∉ after.toList) (before : String) :
    beforeLast mark (before ++ String.singleton mark ++ after) = before ∧
      afterLast mark (before ++ String.singleton mark ++ after) = after := by
  have hlist : (before ++ String.singleton mark ++ after).toList =
      before.toList ++ mark :: after.toList := by simp
  constructor
  · rw [beforeLast, hlist, rdropWhile_append_cons h, List.dropLast_concat, String.ofList_toList]
  · rw [afterLast, hlist, rtakeWhile_append_cons h, String.ofList_toList]

end Text

/-- What a link tells of its bytes: they stand after its last comma, and before that comma
the mime type stands between the words of the link, where no other text fits. -/
structure LinkTells (link mime data : String) : Prop where
  data_eq : Text.afterLast ',' link = data
  mime_iff : ∀ other, Text.beforeLast ',' link = "data:" ++ other ++ ";base64" ↔ other = mime

theorem linkTells_of_not_mem {mime data : String} (h : ',' ∉ data.toList) :
    LinkTells ("data:" ++ mime ++ ";base64," ++ data) mime data := by
  have hlink : "data:" ++ mime ++ ";base64," ++ data =
      "data:" ++ mime ++ ";base64" ++ String.singleton ',' ++ data := by
    simp only [String.append_assoc]
    rfl
  obtain ⟨hbefore, hafter⟩ := Text.cut_at_last h ("data:" ++ mime ++ ";base64")
  rw [hlink]
  constructor
  case data_eq => exact hafter
  case mime_iff =>
    intro other
    rw [hbefore, String.append_left_inj, String.append_right_inj, eq_comm]

/-- A link tells of one mime type and of one run of bytes. -/
theorem LinkTells.unique {link mime data other bytes : String} (h : LinkTells link mime data)
    (hother : LinkTells link other bytes) : data = bytes ∧ mime = other := by
  constructor
  · exact h.data_eq.symm.trans hother.data_eq
  · exact (hother.mime_iff mime).mp ((h.mime_iff mime).mpr rfl)

namespace Body

open ChatIntake.Part (TaggedAs)

/-- The elements that become a link with their bytes in it, each with the mime type that is
resolved for it and with the bytes: audio, and files that are given inline. -/
inductive Embeds (settings : Settings) : Json → String → String → Prop
  | audio {part audio : Json.Fields} {data format mime : String}
      (htag : TaggedAs part "input_audio")
      (haudio : part.get? "input_audio" = some (.object audio))
      (hdata : audio.get? "data" = some (.string data))
      (hformat : audio.get? "format" = some (.string format))
      (hmime : settings.GoesBy format mime) : Embeds settings (.object part) mime data
  | file {part file : Json.Fields} {data : String} {mime? : Option String}
      (htag : TaggedAs part "file") (hfile : part.get? "file" = some (.object file))
      (hinline : Attachment.Describes file (.inline data mime?)) :
      Embeds settings (.object part) (mime?.getD settings.fileMime) data

theorem canonicalPart_of_embeds {settings : Settings} {element : Json} {mime data : String}
    (h : Embeds settings element mime data) :
    canonicalPart settings element =
      .object [("type", .string "input_file"),
        ("file_url", .string ("data:" ++ mime ++ ";base64," ++ data))] := by
  apply canonicalPart_eq_iff.mpr
  cases h with
  | audio htag haudio hdata hformat hmime => exact .audio htag haudio hdata hformat hmime
  | file htag hfile hinline => exact .file htag (.inline hfile hinline)

/-- Elements that become links with bytes in them, under any settings, become links that
tell their bytes and mime types, if the bytes are free of commas. So the links are one
exactly if the bytes are the same and the mime types are. -/
theorem canonicalPart_links_eq_iff {first second : Settings} {element other : Json}
    {mime data otherMime otherData : String} (h : Embeds first element mime data)
    (hother : Embeds second other otherMime otherData) (hdata : ',' ∉ data.toList)
    (hotherData : ',' ∉ otherData.toList) :
    ∃ link otherLink,
      canonicalPart first element =
        .object [("type", .string "input_file"), ("file_url", .string link)] ∧
      canonicalPart second other =
        .object [("type", .string "input_file"), ("file_url", .string otherLink)] ∧
      LinkTells link mime data ∧ LinkTells otherLink otherMime otherData ∧
      (link = otherLink ↔ data = otherData ∧ mime = otherMime) := by
  have htells : LinkTells ("data:" ++ mime ++ ";base64," ++ data) mime data :=
    linkTells_of_not_mem hdata
  have hotherTells : LinkTells ("data:" ++ otherMime ++ ";base64," ++ otherData) otherMime
      otherData :=
    linkTells_of_not_mem hotherData
  refine ⟨_, _, canonicalPart_of_embeds h, canonicalPart_of_embeds hother, htells,
    hotherTells, ?_⟩
  constructor
  · intro hlink
    rw [hlink] at htells
    exact htells.unique hotherTells
  · rintro ⟨rfl, rfl⟩
    rfl

/-- Settings with a mime type that ends as a link with bytes does. -/
def markedSettings : Settings := { audioMimes := [("wav", "audio/wav;base64,QUJD")] }

/-- Audio without any bytes, under that mime type. -/
def silence : Json.Fields := [("type", .string "input_audio"),
  ("input_audio", .object [("data", .string ""), ("format", .string "wav")])]

/-- The bytes that the mime type seems to hold, as a file. -/
def soundFile : Json.Fields := [("type", .string "file"),
  ("file", .object [("data", .string "QUJD"), ("mime_type", .string "audio/wav")])]

theorem canonicalPart_links_eq_iff_markedSettings :
    Embeds markedSettings (.object silence) "audio/wav;base64,QUJD" "" ∧
      Embeds markedSettings (.object soundFile) "audio/wav" "QUJD" ∧
      canonicalPart markedSettings (.object silence) ≠
        canonicalPart markedSettings (.object soundFile) := by
  have hsilence : Embeds markedSettings (.object silence) "audio/wav;base64,QUJD" "" :=
    .audio (.typed rfl (by decide)) rfl rfl rfl (.configured rfl)
  have hinline : Attachment.Describes
      [("data", .string "QUJD"), ("mime_type", .string "audio/wav")]
      (.inline "QUJD" (some "audio/wav")) := Attachment.describes_ofFields _
  have hsound : Embeds markedSettings (.object soundFile) "audio/wav" "QUJD" :=
    .file (.typed rfl (by decide)) rfl hinline
  refine ⟨hsilence, hsound, fun hforms => ?_⟩
  obtain ⟨link, other, hlink, hother, _, _, hiff⟩ :=
    canonicalPart_links_eq_iff hsilence hsound (by decide) (by decide)
  rw [hlink, hother] at hforms
  simp only [Json.object.injEq, List.cons.injEq, Prod.mk.injEq, true_and, and_true,
    Json.string.injEq] at hforms
  exact absurd (hiff.mp hforms).1 (by decide)

end Body

end ChatIntake
