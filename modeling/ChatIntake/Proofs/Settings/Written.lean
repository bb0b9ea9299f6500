import ChatIntake.Proofs.Settings.Load

/-!
# Settings written and loaded

Settings are written as two sections, one for files and one for audio, with a line for each
mime type. Neither the order of the sections nor that of the lines has a say in what is
loaded: the mime types come back in the order of the bytes of their formats, whatever
characters they and their formats are made of, and a blank one is answered alike.
-/

namespace ChatIntake.Settings

open Toml
open Text (HexDigits)

/-- Which of two sections comes first. -/
inductive SectionOrder where
  | filesFirst
  | audioFirst

/-- The section for files and the one for audio, in their order. -/
def SectionOrder.arrange {α : Type} (files audio : α) : SectionOrder → List α
  | filesFirst => [files, audio]
  | audioFirst => [audio, files]

section Text

variable (digits : HexDigits)

/-- The lines of the section for files. -/
def fileLines (fileMime : String) : List (List Char) :=
  ["[coercion.files]".toList, "default_mime_type = ".toList ++ Quoted.write digits fileMime]

/-- The lines of the section for audio, one for each mime type. -/
def audioLines (mimes : Keyed String) : List (List Char) :=
  "[coercion.audio.mime_types]".toList ::
    mimes.map fun entry =>
      Quoted.write digits entry.1 ++ " = ".toList ++ Quoted.write digits entry.2

/-- The lines of a settings file. -/
def writtenLines (order : SectionOrder) (fileMime : String) (mimes : Keyed String) :
    List (List Char) :=
  (order.arrange (fileLines digits fileMime) (audioLines digits mimes)).flatten

/-- A settings file with these mime types, in the order of the lines. -/
def written (order : SectionOrder) (fileMime : String) (mimes : Keyed String) : String :=
  String.ofList (Toml.Statement.writeLines (writtenLines digits order fileMime mimes))

end Text

section Reading

open Statement Node

variable (digits : HexDigits) (fileMime : String) (mimes : Keyed String)

/-- The table with the mime type of files. -/
def filesPath : Path := ⟨["coercion"], "files"⟩

/-- The table with the mime types of audio formats. -/
def mimesPath : Path := ⟨["coercion", "audio"], "mime_types"⟩

/-- The one value in the table for files. -/
def fileValues : Keyed Value := [("default_mime_type", .string fileMime)]

/-- The values in the table for audio formats. -/
def mimeValues : Keyed Value := mimes.map fun entry => (entry.1, .string entry.2)

theorem makes_textAssignment {written : List Char} {key : String} (hkey : WritesKey written key)
    (text : String) :
    Makes (writeAssignment written (Quoted.write digits text))
      (.assignment ⟨[], key⟩ (.string text)) := by
  have hmakes : Makes (writeAssignment written ((Value.string text).write digits))
      (.assignment ⟨[], key⟩ (.string text)) :=
    makes_valueAssignment hkey (.string text) (.string text)
  rwa [Value.write] at hmakes

theorem makes_fileLines :
    List.Forall₂ Makes (fileLines digits fileMime)
      (.table filesPath :: assignValues (fileValues fileMime)) := by
  refine .cons ?header (.cons ?mime .nil)
  case header =>
    have hheader : "[coercion.files]".toList = writeHeader filesPath := by decide
    rw [hheader]
    exact makes_header (by decide) (by decide)
  case mime =>
    have hkey : "default_mime_type = ".toList = "default_mime_type".toList ++ [' ', '=', ' '] := by
      decide
    rw [hkey, List.append_assoc]
    exact makes_textAssignment digits (writesKey_bare (by decide)) fileMime

theorem makes_audioLines :
    List.Forall₂ Makes (audioLines digits mimes)
      (.table mimesPath :: assignValues (mimeValues mimes)) := by
  refine .cons ?header ?mimes
  case header =>
    have hheader : "[coercion.audio.mime_types]".toList = writeHeader mimesPath := by decide
    rw [hheader]
    exact makes_header (by decide) (by decide)
  case mimes =>
    rw [assignValues, mimeValues, List.map_map, List.forall₂_map_left_iff,
      List.forall₂_map_right_iff, List.forall₂_same]
    intro entry _
    rw [List.append_assoc]
    exact makes_textAssignment digits (writesKey_quoted digits entry.1) entry.2

/-- The statements of a settings file. -/
def writtenStatements (order : SectionOrder) : List Statement :=
  (order.arrange (.table filesPath :: assignValues (fileValues fileMime))
    (.table mimesPath :: assignValues (mimeValues mimes))).flatten

theorem makes_writtenLines (order : SectionOrder) :
    List.Forall₂ Makes (writtenLines digits order fileMime mimes)
      (writtenStatements fileMime mimes order) := by
  have hfile := makes_fileLines digits fileMime
  have haudio := makes_audioLines digits mimes
  cases order with
  | filesFirst => exact List.rel_append hfile (List.rel_append haudio .nil)
  | audioFirst => exact List.rel_append haudio (List.rel_append hfile .nil)

/-- The table that a settings file amounts to. -/
def writtenTree (order : SectionOrder) : Keyed Value :=
  [("coercion", .table (order.arrange
    ("files", .table (fileValues fileMime))
    ("audio", .table [("mime_types", .table (mimeValues mimes))])))]

/-- The tree with these entries in the section `coercion`, which is implied. -/
def coercionTree (entries : Keyed Node) : Keyed Node := [("coercion", .table .implied entries)]

/-- The section for files with these entries. -/
def filesNode (entries : Keyed Node) : String × Node := ("files", .table .header entries)

/-- The section for audio with these mime types. -/
def audioNode (entries : Keyed Node) : String × Node :=
  ("audio", .table .implied [("mime_types", .table .header entries)])

/-- The section `coercion` is the same before its first header as when it is empty. -/
theorem run_table_nil (path : Path) (hpath : path.tables.head? = some "coercion")
    (current : List String) (rest : List Statement) :
    run current (.table path :: rest) [] = run current (.table path :: rest) (coercionTree []) := by
  -- Reaching a table that is missing implies it, and the empty one is implied already.
  obtain ⟨_ | ⟨outer, tables⟩, key⟩ := path
  · cases hpath
  · cases hpath
    simp only [run, coercionTree, reach, Keyed.get?, Keyed.insert, if_true]

theorem reach_coercionTree (change : Change) (keys : List String) (before : Keyed Node) :
    reach change ("coercion" :: keys) (coercionTree before) =
      (reach change keys before).map coercionTree := by
  simp only [coercionTree, reach, Keyed.get?, Keyed.insert, if_true]
  rfl

theorem run_fileSection {before : Keyed Node} (h : "files" ∉ before.map (·.1))
    (current : List String) (rest : List Statement) :
    run current (.table filesPath :: assignValues (fileValues fileMime) ++ rest)
        (coercionTree before) =
      run filesPath.keys rest
        (coercionTree (before ++ [filesNode (ofValues (fileValues fileMime))])) := by
  have hopen : reach (openTable filesPath.key) filesPath.tables (coercionTree before) =
      some (coercionTree (before ++ [filesNode []])) := by
    rw [filesPath, reach_coercionTree, reach, openTable_of_notMem h]
    rfl
  have hleads : LeadsTo filesPath.keys fun inner => coercionTree (before ++ [filesNode inner]) :=
    (leadsTo_nil.under h .header).alone .implied
  have hkeys : ((fileValues fileMime).map (·.1)).Nodup := List.nodup_singleton _
  exact run_section hleads hopen hkeys current rest

theorem run_audioSection {before : Keyed Node} (h : "audio" ∉ before.map (·.1))
    (hkeys : (mimes.map (·.1)).Nodup) (current : List String) (rest : List Statement) :
    run current (.table mimesPath :: assignValues (mimeValues mimes) ++ rest)
        (coercionTree before) =
      run mimesPath.keys rest
        (coercionTree (before ++ [audioNode (ofValues (mimeValues mimes))])) := by
  have hopen : reach (openTable mimesPath.key) mimesPath.tables (coercionTree before) =
      some (coercionTree (before ++ [audioNode []])) := by
    rw [mimesPath, reach_coercionTree, reach_of_notMem h]
    rfl
  have hleads : LeadsTo mimesPath.keys fun inner => coercionTree (before ++ [audioNode inner]) :=
    ((leadsTo_nil.alone .header).under h .implied).alone .implied
  have hvalueKeys : ((mimeValues mimes).map (·.1)).Nodup := by rwa [mimeValues, List.map_map]
  exact run_section hleads hopen hvalueKeys current rest

theorem run_writtenStatements (hkeys : (mimes.map (·.1)).Nodup) (order : SectionOrder) :
    (run [] (writtenStatements fileMime mimes order) []).map finishAll =
      some (writtenTree fileMime mimes order) := by
  cases order with
  | filesFirst =>
      simp only [writtenStatements, SectionOrder.arrange, List.flatten_cons, List.flatten_nil]
      rw [List.cons_append, run_table_nil filesPath rfl, ← List.cons_append,
        run_fileSection fileMime List.not_mem_nil,
        run_audioSection mimes (by simp [filesNode]) hkeys]
      simp [run, coercionTree, filesNode, audioNode, finishAll, finish, finishAll_ofValues,
        writtenTree, SectionOrder.arrange]
  | audioFirst =>
      simp only [writtenStatements, SectionOrder.arrange, List.flatten_cons, List.flatten_nil]
      rw [List.cons_append, run_table_nil mimesPath rfl, ← List.cons_append,
        run_audioSection mimes List.not_mem_nil hkeys,
        run_fileSection fileMime (by simp [audioNode])]
      simp [run, coercionTree, filesNode, audioNode, finishAll, finish, finishAll_ofValues,
        writtenTree, SectionOrder.arrange]

/-- A written file is read as the table of its settings. -/
theorem parse?_written (hkeys : (mimes.map (·.1)).Nodup) (order : SectionOrder) :
    Toml.parse? (written digits order fileMime mimes) =
      some (writtenTree fileMime mimes order) := by
  have hmark : unmarked (writeLines (writtenLines digits order fileMime mimes)) =
      writeLines (writtenLines digits order fileMime mimes) := by
    cases order <;> rfl
  simp only [Toml.parse?, written, String.toList_ofList, hmark,
    readAll_writeLines (makes_writtenLines digits fileMime mimes order),
    run_writtenStatements fileMime mimes hkeys order]

/-- The table of a written file is read as its settings, the mime types by their formats. -/
theorem ofTable?_writtenTree (order : SectionOrder) :
    ofTable? (writtenTree fileMime mimes order) =
      some { fileMime, audioMimes := mimes.byKey } := by
  have htexts : texts? (.table (mimeValues mimes)) = some mimes :=
    texts?_eq_some_iff.mpr (.table mimes)
  cases order <;>
    simp [writtenTree, fileValues, SectionOrder.arrange, ofTable?, members?, member?, Keyed.get?,
      ofSection?, fileMime?, audioMimes?, text?, htexts]

theorem load_written_eq_checked (hkeys : (mimes.map (·.1)).Nodup) (order : SectionOrder) :
    load (some (written digits order fileMime mimes).toUTF8) =
      checked { fileMime, audioMimes := mimes.byKey } := by
  rw [load_eq_ofText rfl]
  simp only [ofText, parse?_written digits fileMime mimes hkeys, Option.bind_some,
    ofTable?_writtenTree]

end Reading

/-- The mime types of audio formats in the order of the bytes of the formats have one answer,
and every file in which they are written gets it. -/
theorem load_written (fileMime : String) {mimes : Keyed String}
    (hkeys : (mimes.map (·.1)).Nodup) :
    ∃ (sorted : Keyed String) (answer : Except LoadError Settings),
      sorted.Perm mimes ∧ sorted.InByteOrder ∧
        Checked { fileMime, audioMimes := sorted } answer ∧
        ∀ (digits : HexDigits) (order : SectionOrder) (lines : Keyed String), lines.Perm mimes →
          load (some (written digits order fileMime lines).toUTF8) = answer := by
  -- Entries sort to one list whatever their order in the file, and the answer is that of it.
  have horder := Keyed.inByteOrder_byKey hkeys
  refine ⟨mimes.byKey, checked { fileMime, audioMimes := mimes.byKey }, Keyed.byKey_perm mimes,
    horder, checked_checked horder, ?_⟩
  intro digits order lines hlines
  have hlineKeys : (lines.map (·.1)).Nodup := (hlines.map _).nodup_iff.mpr hkeys
  have hsame : lines.byKey = mimes.byKey :=
    Keyed.eq_of_perm_of_inByteOrder
      ((Keyed.byKey_perm lines).trans (hlines.trans (Keyed.byKey_perm mimes).symm))
      (Keyed.inByteOrder_byKey hlineKeys) horder
  rw [load_written_eq_checked digits fileMime lines hlineKeys order, hsame]

/-- Formats out of order, one of marks and a line break and one of no character at all, and
two blank mime types. -/
def awkwardMimes : Keyed String :=
  [("é\x7f", "\t"), ("\n\".\\", "\u3000"), ("", "a\"/=\\")]

theorem load_written_awkwardMimes :
    (awkwardMimes.map (·.1)).Nodup ∧
      ∀ (digits : HexDigits) (order : SectionOrder) (lines : Keyed String),
        lines.Perm awkwardMimes →
          load (some (written digits order "d" lines).toUTF8) =
            .error (.blank (.audioMime "\n\".\\")) := by
  have hkeys : (awkwardMimes.map (·.1)).Nodup := by decide
  obtain ⟨_, answer, _, _, _, hload⟩ := load_written "d" hkeys
  have hanswer : answer = .error (.blank (.audioMime "\n\".\\")) := by
    rw [← hload .lower .audioFirst awkwardMimes (.refl _), load_written_eq_checked _ _ _ hkeys]
    rfl
  refine ⟨hkeys, fun digits order lines hlines => ?_⟩
  rw [hload digits order lines hlines, hanswer]

end ChatIntake.Settings
