import ChatIntake.Proofs.Settings.Schema
import ChatIntake.Proofs.Toml.Trees
import ChatIntake.Settings.Load

/-!
# What loading answers

The answer to a file as a relation between the two. The file has to be a text, the text
a table that fits the schema, and the settings in it must not be blank; each is looked at
only if the ones before it are in order. Of several blank mime types of audio formats the
one whose format has the least bytes is named. Which table a text is can be told from the
texts of trees: they are answered as their trees are.
-/

namespace ChatIntake

theorem fromUTF8?_eq_some_iff {bytes : ByteArray} {text : String} :
    String.fromUTF8? bytes = some text ↔ bytes = text.toUTF8 := by
  constructor
  · intro h
    simp only [String.fromUTF8?] at h
    split at h
    · cases h
      rfl
    · cases h
  · rintro rfl
    exact dif_pos text.isValidUTF8

/-- A setting is known by its path. -/
theorem Setting.path_injective {a b : Setting} (h : a.path = b.path) : a = b := by
  have hparts : ∀ format, fileMime.path ≠ (audioMime format).path := by
    intro format heq
    have hpath : "coercion.files.default_mime_type" = "coercion.audio.mime_types." ++ format := heq
    have htake := congrArg (List.take 10) (congrArg String.toList hpath)
    rw [String.toList_append, List.take_append_of_le_length (by decide)] at htake
    -- the two part at their tenth character
    have hstart : "coercion.files.default_mime_type".toList.take 10 ≠
        "coercion.audio.mime_types.".toList.take 10 := by decide
    exact hstart htake
  cases a with
  | fileMime =>
      cases b with
      | fileMime => rfl
      | audioMime format => exact absurd h (hparts format)
  | audioMime format =>
      cases b with
      | fileMime => exact absurd h.symm (hparts format)
      | audioMime other => rw [(String.append_right_inj _).mp h]

namespace Settings

/-- The least of the formats whose mime types are blank, in the order of their bytes. -/
structure LeastBlank (mimes : Keyed String) (format : String) : Prop where
  blank : ∃ mime, (format, mime) ∈ mimes ∧ Text.isBlank mime = true
  least : ∀ entry ∈ mimes, Text.isBlank entry.2 = true →
    Text.utf8 format ≤ Text.utf8 entry.1

/-- What is answered for settings that a table amounts to. -/
inductive Checked (settings : Settings) : Except LoadError Settings → Prop
  | blankFileMime {setting : Setting} (hblank : Text.isBlank settings.fileMime = true)
      (hpath : setting.path = "coercion.files.default_mime_type") :
      Checked settings (.error (.blank setting))
  | blankAudioMime {setting : Setting} {format : String}
      (hfileMime : Text.isBlank settings.fileMime = false)
      (hleast : LeastBlank settings.audioMimes format)
      (hpath : setting.path = "coercion.audio.mime_types." ++ format) :
      Checked settings (.error (.blank setting))
  | sound (hfileMime : Text.isBlank settings.fileMime = false)
      (haudioMimes : ∀ entry ∈ settings.audioMimes, Text.isBlank entry.2 = false) :
      Checked settings (.ok settings)

/-- What is answered for a tree of tables. -/
inductive TreeAnswered (tree : Keyed Toml.Value) : Except LoadError Settings → Prop
  | doubled (hdoubled : ¬ Keyed.Once Toml.Value.KeyedOnce tree) :
      TreeAnswered tree (.error .malformed)
  | misfit (honce : Keyed.Once Toml.Value.KeyedOnce tree)
      (hmisfit : ∀ settings, ¬ Fits tree settings) : TreeAnswered tree (.error .malformed)
  | checked {settings : Settings} {answer : Except LoadError Settings}
      (honce : Keyed.Once Toml.Value.KeyedOnce tree) (hfits : Fits tree settings)
      (hchecked : Checked settings answer) : TreeAnswered tree answer

/-- What is answered for a file. -/
inductive Answered (file? : Option ByteArray) : Except LoadError Settings → Prop
  | unreadable (hfile : ∀ text : String, file? ≠ some text.toUTF8) :
      Answered file? (.error .unreadable)
  | notTable {text : String} (hfile : file? = some text.toUTF8)
      (hparse : Toml.parse? text = none) : Answered file? (.error .malformed)
  | tree {text : String} {tree : Keyed Toml.Value} {answer : Except LoadError Settings}
      (hfile : file? = some text.toUTF8) (hparse : Toml.parse? text = some tree)
      (htree : TreeAnswered tree answer) : Answered file? answer

theorem leastBlank_cons_of_blank {entry : String × String} {rest : Keyed String}
    (hblank : Text.isBlank entry.2 = true)
    (hfirst : ∀ other ∈ rest, Text.utf8 entry.1 < Text.utf8 other.1) {format : String} :
    LeastBlank (entry :: rest) format ↔ entry.1 = format := by
  constructor
  · rintro ⟨⟨mime, hmem, _⟩, hleast⟩
    rcases List.mem_cons.mp hmem with heq | hrest
    · rw [← heq]
    · exact absurd (hfirst _ hrest) (List.not_lt.mpr (hleast entry List.mem_cons_self hblank))
  · rintro rfl
    refine ⟨⟨entry.2, List.mem_cons_self, hblank⟩, fun other hmem _ => ?_⟩
    rcases List.mem_cons.mp hmem with rfl | hrest
    · exact List.le_refl _
    · exact List.le_of_lt (hfirst other hrest)

theorem leastBlank_cons_of_not_blank {entry : String × String} {rest : Keyed String}
    (hblank : Text.isBlank entry.2 = false) {format : String} :
    LeastBlank (entry :: rest) format ↔ LeastBlank rest format := by
  constructor
  · rintro ⟨⟨mime, hmem, hmime⟩, hleast⟩
    have hrest : (format, mime) ∈ rest := by
      rcases List.mem_cons.mp hmem with heq | hrest
      · exact absurd (heq ▸ hmime) (ne_true_of_eq_false hblank)
      · exact hrest
    exact ⟨⟨mime, hrest, hmime⟩, fun other hother => hleast other (List.mem_cons_of_mem _ hother)⟩
  · rintro ⟨⟨mime, hmem, hmime⟩, hleast⟩
    refine ⟨⟨mime, List.mem_cons_of_mem _ hmem, hmime⟩, fun other hother hblankOther => ?_⟩
    rcases List.mem_cons.mp hother with rfl | hrest
    · exact absurd hblankOther (ne_true_of_eq_false hblank)
    · exact hleast other hrest hblankOther

/-- Among entries in the order of their bytes, the first blank one is the least. -/
theorem find?_isBlank_eq_some_iff {mimes : Keyed String}
    (horder : mimes.InByteOrder) {format : String} :
    ((mimes.find? fun entry => Text.isBlank entry.2).map fun entry => entry.1) = some format ↔
      LeastBlank mimes format := by
  induction mimes with
  | nil =>
      constructor
      · intro h
        cases h
      · rintro ⟨⟨mime, hmem, _⟩, _⟩
        cases hmem
  | cons entry rest ih =>
      obtain ⟨hfirst, hrest⟩ := List.pairwise_cons.mp horder
      rw [List.find?_cons]
      split
      · next hblank =>
          rw [leastBlank_cons_of_blank hblank hfirst, Option.map_some, Option.some.injEq]
      · next hblank =>
          rw [leastBlank_cons_of_not_blank hblank]
          exact ih hrest

theorem find?_isBlank_eq_none_iff {mimes : Keyed String} :
    ((mimes.find? fun entry => Text.isBlank entry.2).map fun entry => entry.1) = none ↔
      ∀ entry ∈ mimes, Text.isBlank entry.2 = false := by
  rw [Option.map_eq_none_iff, List.find?_eq_none]
  simp only [Bool.not_eq_true]

theorem blank?_of_fileMime {settings : Settings} (h : Text.isBlank settings.fileMime = false) :
    blank? settings =
      ((settings.audioMimes.find? fun entry => Text.isBlank entry.2).map fun entry =>
        entry.1).map .audioMime := by
  rw [blank?, if_neg (ne_true_of_eq_false h), Option.map_map]
  rfl

theorem checked_eq_of_checked {settings : Settings} {answer : Except LoadError Settings}
    (horder : settings.audioMimes.InByteOrder)
    (h : Checked settings answer) : checked settings = answer := by
  cases h with
  | blankFileMime hblank hpath =>
      obtain rfl := Setting.path_injective (b := .fileMime) hpath
      simp only [checked, blank?, if_pos hblank]
  | blankAudioMime hfileMime hleast hpath =>
      obtain rfl := Setting.path_injective (b := .audioMime _) hpath
      rw [checked, blank?_of_fileMime hfileMime, (find?_isBlank_eq_some_iff horder).mpr hleast]
      rfl
  | sound hfileMime haudioMimes =>
      rw [checked, blank?_of_fileMime hfileMime, find?_isBlank_eq_none_iff.mpr haudioMimes]
      rfl

theorem checked_checked {settings : Settings}
    (horder : settings.audioMimes.InByteOrder) :
    Checked settings (checked settings) := by
  cases hfileMime : Text.isBlank settings.fileMime with
  | true =>
      simp only [checked, blank?, if_pos hfileMime]
      exact .blankFileMime hfileMime rfl
  | false =>
      rw [checked, blank?_of_fileMime hfileMime]
      cases hfirst : (settings.audioMimes.find? fun entry => Text.isBlank entry.2).map fun entry =>
        entry.1 with
      | none => exact .sound hfileMime (find?_isBlank_eq_none_iff.mp hfirst)
      | some format =>
          exact .blankAudioMime hfileMime ((find?_isBlank_eq_some_iff horder).mp hfirst) rfl

theorem Fits.inByteOrder {tree : Keyed Toml.Value} {settings : Settings}
    (h : Fits tree settings) : settings.audioMimes.InByteOrder := by
  cases h.member with
  | missing => exact .nil
  | given _ hcoercion =>
      have haudioMimes := hcoercion.audioMimes
      generalize settings.audioMimes = mimes at haudioMimes ⊢
      cases haudioMimes with
      | missing => exact .nil
      | given _ haudio =>
          cases haudio.member with
          | missing => exact .nil
          | given _ hmimes => exact hmimes.inByteOrder

theorem load_eq_ofText {file? : Option ByteArray} {text : String}
    (hfile : file? = some text.toUTF8) : load file? = ofText text := by
  simp only [hfile, load, Option.bind_some, fromUTF8?_eq_some_iff.mpr rfl]

/-- A text that is read as a tree has the answer to the tree. -/
theorem ofText_eq_iff {text : String} {tree : Keyed Toml.Value}
    (hparse : Toml.parse? text = some tree) {answer : Except LoadError Settings} :
    ofText text = answer ↔ TreeAnswered tree answer := by
  have honce := Toml.once_of_parse? hparse
  have hfits : ∀ {settings}, ofTable? tree = some settings ↔ Fits tree settings :=
    ofTable?_eq_some_iff honce
  simp only [ofText, hparse, Option.bind_some]
  constructor
  · rintro rfl
    cases htree : ofTable? tree with
    | none => exact .misfit honce fun settings h => by simp [hfits.mpr h] at htree
    | some settings =>
        have h := hfits.mp htree
        exact .checked honce h (checked_checked h.inByteOrder)
  · intro h
    cases h with
    | doubled hdoubled => exact absurd honce hdoubled
    | misfit _ hmisfit =>
        have hnone : ofTable? tree = none := Option.eq_none_iff_forall_ne_some.mpr
          fun settings hsettings => hmisfit settings (hfits.mp hsettings)
        simp only [hnone]
    | checked _ htree hchecked =>
        simp only [hfits.mpr htree]
        exact checked_eq_of_checked htree.inByteOrder hchecked

theorem ofText_eq_malformed {text : String} (hparse : Toml.parse? text = none) :
    ofText text = .error .malformed := by
  simp only [ofText, hparse, Option.bind_none]

theorem answered_load (file? : Option ByteArray) : Answered file? (load file?) := by
  cases htext : file?.bind String.fromUTF8? with
  | none =>
      simp only [load, htext]
      refine .unreadable fun text hfile => ?_
      rw [hfile, Option.bind_some, fromUTF8?_eq_some_iff.mpr rfl] at htext
      cases htext
  | some text =>
      obtain ⟨bytes, hfile, hbytes⟩ := Option.bind_eq_some_iff.mp htext
      rw [fromUTF8?_eq_some_iff.mp hbytes] at hfile
      rw [load_eq_ofText hfile]
      cases hparse : Toml.parse? text with
      | none =>
          rw [ofText_eq_malformed hparse]
          exact .notTable hfile hparse
      | some tree => exact .tree hfile hparse ((ofText_eq_iff hparse).mp rfl)

end Settings

end ChatIntake
