import ChatIntake.Proofs.Toml.Keys
import ChatIntake.Settings.Schema
import Mathlib.Data.List.Nodup

/-!
# Which tables are settings

The schema as a relation between a table and the settings that it amounts to. A table
fits the schema exactly if it is read, and it is read as what it amounts to. Since a
document has each key once, these settings are determined by it.
-/

namespace ChatIntake.Settings

/-- A section whose members have the given names: a table with no key besides, or a list. -/
inductive IsSection (names : List String) : Toml.Value → Prop
  | table {entries : Keyed Toml.Value} (hknown : ∀ entry ∈ entries, entry.1 ∈ names) :
      IsSection names (.table entries)
  | list (elements : List Toml.Value) : IsSection names (.array elements)

/-- What a section holds under a name: the value of the key, or the element whose place
is that of the name. -/
inductive Holds (names : List String) : Toml.Value → String → Toml.Value → Prop
  | keyed {entries : Keyed Toml.Value} {name : String} {value : Toml.Value}
      (hmem : (name, value) ∈ entries) : Holds names (.table entries) name value
  | placed {elements : List Toml.Value} {name : String} {value : Toml.Value} (i : Nat)
      (hname : names[i]? = some name) (helement : elements[i]? = some value) :
      Holds names (.array elements) name value

/-- What the member of a section under a name comes to. A value has to fit, and a member
that is missing comes to its default. -/
inductive MemberFits {α : Type} (names : List String) (holder : Toml.Value) (name : String)
    (Fits : Toml.Value → α → Prop) (default : α) : α → Prop
  | given {value : Toml.Value} {a : α} (hholds : Holds names holder name value)
      (hfits : Fits value a) : MemberFits names holder name Fits default a
  | missing (hmissing : ∀ value, ¬ Holds names holder name value) :
      MemberFits names holder name Fits default default

/-- A section with one member, and what the member comes to. -/
structure SoleFits {α : Type} (name : String) (Fits : Toml.Value → α → Prop) (default : α)
    (holder : Toml.Value) (a : α) : Prop where
  isSection : IsSection [name] holder
  member : MemberFits [name] holder name Fits default a

/-- The section `files` and the mime type of files in it. -/
def FilesFit : Toml.Value → String → Prop :=
  SoleFits "default_mime_type" (fun value text => value = .string text) "application/octet-stream"

/-- A table of texts and its entries. The one text of a moment is the moment as written. -/
inductive TextsFit : Toml.Value → Keyed String → Prop
  | table (texts : Keyed String) :
      TextsFit (.table (texts.map fun entry => (entry.1, .string entry.2))) texts
  | moment (moment : Toml.Moment) :
      TextsFit (.moment moment) [(momentKey, String.ofList moment.write)]

/-- The mime types of audio formats, in the order of the bytes of the formats. -/
structure MimesFit (value : Toml.Value) (mimes : Keyed String) : Prop where
  texts : ∃ texts, TextsFit value texts ∧ mimes.Perm texts
  inByteOrder : mimes.InByteOrder

/-- The section `audio` and the mime types of audio formats in it. -/
def AudioFits : Toml.Value → Keyed String → Prop :=
  SoleFits "mime_types" MimesFit []

/-- The section `coercion` and the settings in it. -/
structure CoercionFits (coercion : Toml.Value) (settings : Settings) : Prop where
  isSection : IsSection ["files", "audio"] coercion
  fileMime : MemberFits ["files", "audio"] coercion "files" FilesFit
    "application/octet-stream" settings.fileMime
  audioMimes : MemberFits ["files", "audio"] coercion "audio" AudioFits []
    settings.audioMimes

/-- A whole table and the settings in it. -/
def Fits (tree : Keyed Toml.Value) : Settings → Prop :=
  SoleFits "coercion" CoercionFits { fileMime := "application/octet-stream", audioMimes := [] }
    (.table tree)

section Members

variable {α : Type} {names : List String} {holder : Toml.Value} {name : String}
  {members : Keyed Toml.Value}

theorem isSection_iff :
    IsSection names holder ↔ ∃ members, members? names holder = some members := by
  constructor
  · intro h
    cases h with
    | @table entries hknown =>
        exact ⟨entries, if_pos (List.all_eq_true.mpr fun entry hentry =>
          List.contains_iff_mem.mpr (hknown entry hentry))⟩
    | list elements => exact ⟨_, rfl⟩
  · rintro ⟨members, h⟩
    cases holder with
    | table entries =>
        simp only [members?] at h
        split at h
        · next hall =>
            exact .table fun entry hentry =>
              List.contains_iff_mem.mp (List.all_eq_true.mp hall entry hentry)
        · cases h
    | array elements => exact .list elements
    | _ => cases h

theorem nodup_keys_zip (elements : List Toml.Value) (hnames : names.Nodup) :
    ((names.zip elements).map (·.1)).Nodup := by
  induction names generalizing elements with
  | nil => simp
  | cons name names ih =>
      cases elements with
      | nil => simp
      | cons element elements =>
          obtain ⟨hname, hnames⟩ := List.nodup_cons.mp hnames
          rw [List.zip_cons_cons, List.map_cons, List.nodup_cons]
          refine ⟨fun hmem => hname ?_, ih elements hnames⟩
          obtain ⟨entry, hentry, rfl⟩ := List.mem_map.mp hmem
          exact (List.of_mem_zip hentry).1

theorem get?_members?_iff (hmembers : members? names holder = some members)
    (hnames : names.Nodup) (honce : holder.KeyedOnce) {value : Toml.Value} :
    members.get? name = some value ↔ Holds names holder name value := by
  cases holder with
  | table entries =>
      simp only [members?] at hmembers
      split at hmembers
      · cases hmembers
        rw [Keyed.get?_eq_some_iff honce.entries.keys]
        exact ⟨.keyed, fun h => by cases h; assumption⟩
      · cases hmembers
  | array elements =>
      cases hmembers
      rw [Keyed.get?_eq_some_iff (nodup_keys_zip elements hnames), List.mem_iff_getElem?]
      constructor
      · rintro ⟨i, hi⟩
        obtain ⟨hname, helement⟩ := List.getElem?_zip_eq_some.mp hi
        exact .placed i hname helement
      · intro h
        cases h with
        | placed i hname helement => exact ⟨i, List.getElem?_zip_eq_some.mpr ⟨hname, helement⟩⟩
  | _ => cases hmembers

theorem Holds.keyedOnce {value : Toml.Value} (h : Holds names holder name value)
    (honce : holder.KeyedOnce) : value.KeyedOnce := by
  cases h with
  | keyed hmem => exact honce.entries.values _ hmem
  | placed i _ helement =>
      cases honce with
      | array helements => exact helements _ (List.mem_of_getElem? helement)

variable {read : Toml.Value → Option α} {Fits : Toml.Value → α → Prop} {default : α}

/-- A member is read as what it comes to, if its values are read as what they fit. -/
theorem member?_eq_some_iff
    (hread : ∀ value, value.KeyedOnce → ∀ a, read value = some a ↔ Fits value a)
    (hmembers : members? names holder = some members) (hnames : names.Nodup)
    (honce : holder.KeyedOnce) {a : α} :
    member? members name default read = some a ↔
      MemberFits names holder name Fits default a := by
  have hget : ∀ {value}, members.get? name = some value ↔ Holds names holder name value :=
    get?_members?_iff hmembers hnames honce
  constructor
  · intro h
    simp only [member?] at h
    split at h
    · next hnone =>
        cases h
        exact .missing fun value hholds => by simp [hget.mpr hholds] at hnone
    · next value hsome =>
        have hholds := hget.mp hsome
        exact .given hholds ((hread value (hholds.keyedOnce honce) a).mp h)
  · intro h
    cases h with
    | given hholds hfits =>
        simp only [member?, hget.mpr hholds]
        exact (hread _ (hholds.keyedOnce honce) a).mpr hfits
    | missing hmissing =>
        have hnone : members.get? name = none :=
          Option.eq_none_iff_forall_ne_some.mpr fun value hsome => hmissing value (hget.mp hsome)
        simp only [member?, hnone]

/-- A section with one member is read as what the member comes to. -/
theorem soleMember_eq_some_iff
    (hread : ∀ value, value.KeyedOnce → ∀ a, read value = some a ↔ Fits value a)
    (honce : holder.KeyedOnce) {a : α} :
    ((members? [name] holder).bind fun members => member? members name default read) = some a ↔
      SoleFits name Fits default holder a := by
  have hnames := List.nodup_singleton name
  constructor
  · intro h
    obtain ⟨members, hmembers, hmember⟩ := Option.bind_eq_some_iff.mp h
    exact ⟨isSection_iff.mpr ⟨members, hmembers⟩,
      (member?_eq_some_iff hread hmembers hnames honce).mp hmember⟩
  · rintro ⟨hsection, hmember⟩
    obtain ⟨members, hmembers⟩ := isSection_iff.mp hsection
    exact Option.bind_eq_some_iff.mpr ⟨members, hmembers,
      (member?_eq_some_iff hread hmembers hnames honce).mpr hmember⟩

end Members

theorem text?_eq_some_iff {value : Toml.Value} {text : String} :
    text? value = some text ↔ value = .string text := by
  cases value <;> simp [text?]

theorem mapM_text?_eq_some_iff {entries : Keyed Toml.Value} {texts : Keyed String} :
    (entries.mapM fun entry => (text? entry.2).map fun text => (entry.1, text)) = some texts ↔
      entries = texts.map fun entry => (entry.1, .string entry.2) := by
  induction entries generalizing texts with
  | nil => cases texts <;> simp
  | cons entry entries ih =>
      obtain ⟨key, value⟩ := entry
      rw [List.mapM_cons]
      simp only [Option.bind_eq_bind, Option.bind_eq_some_iff, Option.map_eq_some_iff,
        text?_eq_some_iff, ih]
      constructor
      · rintro ⟨_, ⟨text, rfl, rfl⟩, others, rfl, h⟩
        cases h
        rfl
      · intro h
        cases texts with
        | nil => cases h
        | cons first others =>
            cases h
            exact ⟨first, ⟨first.2, rfl, rfl⟩, others, rfl, rfl⟩

theorem texts?_eq_some_iff {value : Toml.Value} {texts : Keyed String} :
    texts? value = some texts ↔ TextsFit value texts := by
  constructor
  · intro h
    cases value with
    | table entries =>
        obtain rfl := mapM_text?_eq_some_iff.mp h
        exact .table texts
    | moment moment =>
        cases h
        exact .moment moment
    | _ => cases h
  · intro h
    cases h with
    | table => exact mapM_text?_eq_some_iff.mpr rfl
    | moment moment => rfl

theorem TextsFit.nodup_keys {value : Toml.Value} {texts : Keyed String}
    (h : TextsFit value texts) (honce : value.KeyedOnce) : (texts.map (·.1)).Nodup := by
  cases h with
  | table =>
      have hkeys := honce.entries.keys
      rwa [List.map_map] at hkeys
  | moment => exact List.nodup_singleton _

theorem byKey_texts?_eq_some_iff {value : Toml.Value} (honce : value.KeyedOnce)
    {mimes : Keyed String} :
    (texts? value).map Keyed.byKey = some mimes ↔ MimesFit value mimes := by
  rw [Option.map_eq_some_iff]
  constructor
  · rintro ⟨texts, htexts, rfl⟩
    have hfits := texts?_eq_some_iff.mp htexts
    exact ⟨⟨texts, hfits, Keyed.byKey_perm texts⟩,
      Keyed.inByteOrder_byKey (hfits.nodup_keys honce)⟩
  · rintro ⟨⟨texts, hfits, hperm⟩, horder⟩
    refine ⟨texts, texts?_eq_some_iff.mpr hfits, ?_⟩
    exact Keyed.eq_of_perm_of_inByteOrder ((Keyed.byKey_perm texts).trans hperm.symm)
      (Keyed.inByteOrder_byKey (hfits.nodup_keys honce)) horder

theorem fileMime?_eq_some_iff {files : Toml.Value} (honce : files.KeyedOnce) {mime : String} :
    fileMime? files = some mime ↔ FilesFit files mime :=
  soleMember_eq_some_iff (fun _ _ _ => text?_eq_some_iff) honce

theorem audioMimes?_eq_some_iff {audio : Toml.Value} (honce : audio.KeyedOnce)
    {mimes : Keyed String} : audioMimes? audio = some mimes ↔ AudioFits audio mimes :=
  soleMember_eq_some_iff (fun _ hvalue _ => byKey_texts?_eq_some_iff hvalue) honce

theorem ofSection?_eq_some_iff {coercion : Toml.Value} (honce : coercion.KeyedOnce)
    {settings : Settings} :
    ofSection? coercion = some settings ↔ CoercionFits coercion settings := by
  have hnames : ["files", "audio"].Nodup := by decide
  constructor
  · intro h
    obtain ⟨members, hmembers, h⟩ := Option.bind_eq_some_iff.mp h
    obtain ⟨fileMime, hfileMime, h⟩ := Option.bind_eq_some_iff.mp h
    obtain ⟨audioMimes, haudioMimes, h⟩ := Option.bind_eq_some_iff.mp h
    cases h
    exact {
      isSection := isSection_iff.mpr ⟨members, hmembers⟩
      fileMime := (member?_eq_some_iff (fun _ hvalue _ => fileMime?_eq_some_iff hvalue)
        hmembers hnames honce).mp hfileMime
      audioMimes := (member?_eq_some_iff (fun _ hvalue _ => audioMimes?_eq_some_iff hvalue)
        hmembers hnames honce).mp haudioMimes }
  · rintro ⟨hsection, hfileMime, haudioMimes⟩
    obtain ⟨members, hmembers⟩ := isSection_iff.mp hsection
    have hfile := (member?_eq_some_iff (fun _ hvalue _ => fileMime?_eq_some_iff hvalue)
      hmembers hnames honce).mpr hfileMime
    have haudio := (member?_eq_some_iff (fun _ hvalue _ => audioMimes?_eq_some_iff hvalue)
      hmembers hnames honce).mpr haudioMimes
    refine Option.bind_eq_some_iff.mpr ⟨members, hmembers, ?_⟩
    exact Option.bind_eq_some_iff.mpr ⟨_, hfile, Option.bind_eq_some_iff.mpr ⟨_, haudio, rfl⟩⟩

/-- A table is read as settings exactly if it fits the schema, and as those it amounts to. -/
theorem ofTable?_eq_some_iff {tree : Keyed Toml.Value}
    (honce : Keyed.Once Toml.Value.KeyedOnce tree) {settings : Settings} :
    ofTable? tree = some settings ↔ Fits tree settings :=
  soleMember_eq_some_iff (fun _ hvalue _ => ofSection?_eq_some_iff hvalue)
    (.table honce.keys honce.values)

end ChatIntake.Settings
