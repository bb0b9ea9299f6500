import ChatIntake.Proofs.Listing
import ChatIntake.Tool.Call

/-!
# Tool calls and their faults

Which entries describe a call, and what is wrong with each of the others. An entry
has one fault at most: the first of the four things asked of it that it lacks.
-/

namespace ChatIntake.ToolCall

/-- An entry describes the call whose identifier and function it names. -/
inductive Describes : Json → ToolCall → Prop
  | intro {entry function : Json.Fields} {id name : String}
      (hid : entry.get? "id" = some (.string id)) (hidFull : id ≠ "")
      (hfunction : entry.get? "function" = some (.object function))
      (hname : function.get? "name" = some (.string name)) (hnameFull : name ≠ "") :
      Describes (.object entry) ⟨id, name, argumentText (function.get? "arguments")⟩

/-- The text of the arguments: the empty object if there are none, a text verbatim, and
compact JSON for anything else. -/
inductive ArgumentsAs : Option Json → String → Prop
  | missing : ArgumentsAs none "\x7b\x7d"
  | null : ArgumentsAs (some .null) "\x7b\x7d"
  | text (s : String) : ArgumentsAs (some (.string s)) s
  | encoded {value : Json} (hnull : value ≠ .null) (htext : ∀ s, value ≠ .string s) :
      ArgumentsAs (some value) value.compact

/-- A call carries the identifier, the name and the arguments that stand in an entry. -/
inductive Carries : ToolCall → Json → Prop
  | intro {call : ToolCall} {entry function : Json.Fields}
      (hid : entry.get? "id" = some (.string call.id))
      (hfunction : entry.get? "function" = some (.object function))
      (hname : function.get? "name" = some (.string call.name))
      (harguments : ArgumentsAs (function.get? "arguments") call.arguments) :
      Carries call (.object entry)

theorem argumentsAs_argumentText (value? : Option Json) :
    ArgumentsAs value? (argumentText value?) := by
  cases value? with
  | none => exact .missing
  | some value =>
      cases value with
      | null => exact .null
      | string s => exact .text s
      | bool | number | array | object => exact .encoded (by simp) (by simp)

/-- An entry that describes a call has all that the call carries, and neither its
identifier nor its name is empty. -/
theorem Describes.carries {value : Json} {call : ToolCall} (h : Describes value call) :
    Carries call value ∧ call.id ≠ "" ∧ call.name ≠ "" := by
  cases h with
  | intro hid hidFull hfunction hname hnameFull =>
      exact ⟨.intro hid hfunction hname (argumentsAs_argumentText _), hidFull, hnameFull⟩

/-- What is wrong with the entry at an index: it is no object, or it has no
identifier, or no function object, or no name for the function. -/
inductive Fault (index : Nat) : Json → Rejection → Prop
  | notAnObject {value : Json} (hvalue : ∀ entry, value ≠ .object entry) :
      Fault index value (.callNotAnObject index)
  | missingId {entry : Json.Fields} (hid : ¬ entry.HoldsFullText "id") :
      Fault index (.object entry) (.missingCallId index)
  | missingFunction {entry : Json.Fields} (hid : entry.HoldsFullText "id")
      (hfunction : ∀ function, entry.get? "function" ≠ some (.object function)) :
      Fault index (.object entry) (.missingFunction index)
  | missingName {entry function : Json.Fields} (hid : entry.HoldsFullText "id")
      (hfunction : entry.get? "function" = some (.object function))
      (hname : ¬ function.HoldsFullText "name") :
      Fault index (.object entry) (.missingFunctionName index)

/-- An entry is read as a call exactly if it describes that call. -/
theorem read_eq_ok_iff {index : Nat} {value : Json} {call : ToolCall} :
    read index value = .ok call ↔ Describes value call := by
  constructor
  · intro h
    simp only [read] at h
    split at h
    · cases h
    · next entry hentry =>
        split at h
        · cases h
        · next id hid =>
            split at h
            · cases h
            · next function hfunction =>
                split at h
                · cases h
                · next name hname =>
                    cases h
                    rw [Json.fields?_eq_some_iff.mp hentry]
                    obtain ⟨hid, hidFull⟩ := Json.Fields.fullText?_eq_some_iff.mp hid
                    obtain ⟨hname, hnameFull⟩ := Json.Fields.fullText?_eq_some_iff.mp hname
                    exact .intro hid hidFull (Json.bind_fields?_eq_some_iff.mp hfunction)
                      hname hnameFull
  · rintro ⟨hid, hidFull, hfunction, hname, hnameFull⟩
    simp [read, Json.fields?, Json.Fields.fullText?_eq_some_iff.mpr ⟨hid, hidFull⟩, hfunction,
      Json.Fields.fullText?_eq_some_iff.mpr ⟨hname, hnameFull⟩]

/-- An entry is refused exactly for its fault. -/
theorem read_eq_error_iff {index : Nat} {value : Json} {rejection : Rejection} :
    read index value = .error rejection ↔ Fault index value rejection := by
  constructor
  · intro h
    simp only [read] at h
    split at h
    · next hvalue =>
        cases h
        exact .notAnObject (Json.fields?_eq_none_iff.mp hvalue)
    · next entry hentry =>
        rw [Json.fields?_eq_some_iff.mp hentry]
        split at h
        · next hid =>
            cases h
            exact .missingId (Json.Fields.fullText?_eq_none_iff.mp hid)
        · next id hid =>
            have hidHeld : entry.HoldsFullText "id" :=
              ⟨id, Json.Fields.fullText?_eq_some_iff.mp hid⟩
            split at h
            · next hfunction =>
                cases h
                exact .missingFunction hidHeld (Json.bind_fields?_eq_none_iff.mp hfunction)
            · next function hfunction =>
                split at h
                · next hname =>
                    cases h
                    exact .missingName hidHeld (Json.bind_fields?_eq_some_iff.mp hfunction)
                      (Json.Fields.fullText?_eq_none_iff.mp hname)
                · cases h
  · intro h
    cases h with
    | notAnObject hvalue => simp [read, Json.fields?_eq_none_iff.mpr hvalue]
    | missingId hid => simp [read, Json.fields?, Json.Fields.fullText?_eq_none_iff.mpr hid]
    | missingFunction hid hfunction =>
        obtain ⟨id, hid⟩ := hid
        simp [read, Json.fields?, Json.Fields.fullText?_eq_some_iff.mpr hid,
          Json.bind_fields?_eq_none_iff.mpr hfunction]
    | missingName hid hfunction hname =>
        obtain ⟨id, hid⟩ := hid
        simp [read, Json.fields?, Json.Fields.fullText?_eq_some_iff.mpr hid, hfunction,
          Json.Fields.fullText?_eq_none_iff.mpr hname]

theorem readFrom_eq_readEach (index : Nat) (values : List Json) :
    readFrom index values = Listing.readEach read index values := by
  induction values generalizing index with
  | nil => rfl
  | cons value values ih =>
      simp only [readFrom, Listing.readEach, ih]
      cases read index value with
      | error rejection => rfl
      | ok call => cases Listing.readEach read (index + 1) values <;> rfl

/-- Entries are read as calls exactly if each describes its call. -/
theorem readFrom_eq_ok_iff {index : Nat} {values : List Json} {calls : List ToolCall} :
    readFrom index values = .ok calls ↔ List.Forall₂ Describes values calls := by
  rw [readFrom_eq_readEach]
  apply Listing.readEach_eq_ok_iff
  exact fun _ _ _ => read_eq_ok_iff

/-- Entries are refused exactly for the fault of the first that describes no call. -/
theorem readFrom_eq_error_iff {index : Nat} {values : List Json} {rejection : Rejection} :
    readFrom index values = .error rejection ↔
      ∃ before entry after, values = before ++ entry :: after ∧
        (∀ b ∈ before, ∃ call, Describes b call) ∧
        Fault (index + before.length) entry rejection := by
  simp only [readFrom_eq_readEach, ← read_eq_error_iff]
  apply Listing.readEach_eq_error_iff
  exact fun _ _ _ => read_eq_ok_iff

/-- The entries for calls among the fields of a message: those of the list under
`tool_calls`, and none if no list stands there. -/
inductive Lists (fields : Json.Fields) : List Json → Prop
  | list {values : List Json} (hvalues : fields.get? "tool_calls" = some (.array values)) :
      Lists fields values
  | nothing (hnone : ∀ values, fields.get? "tool_calls" ≠ some (.array values)) :
      Lists fields []

variable {fields : Json.Fields} {values others : List Json}

theorem lists_entries (fields : Json.Fields) : Lists fields (entries fields) := by
  simp only [entries]
  split
  · next hvalues => exact .list hvalues
  · next hnone => exact .nothing hnone

theorem Lists.eq_of_get? (h : Lists fields values)
    (hothers : fields.get? "tool_calls" = some (.array others)) : values = others := by
  cases h with
  | list hvalues =>
      rw [hvalues, Option.some.injEq, Json.array.injEq] at hothers
      exact hothers
  | nothing hnone => exact absurd hothers (hnone others)

theorem Lists.get?_eq (h : Lists fields values) (hvalues : values ≠ []) :
    fields.get? "tool_calls" = some (.array values) := by
  cases h with
  | list hlist => exact hlist
  | nothing => exact absurd rfl hvalues

/-- A message lists one row of entries. -/
theorem Lists.eq_entries (h : Lists fields values) : values = entries fields := by
  cases h with
  | list hvalues => exact ((lists_entries fields).eq_of_get? hvalues).symm
  | nothing hnone =>
      have hentries := lists_entries fields
      by_contra hne
      exact hnone _ (hentries.get?_eq (Ne.symm hne))

/-- The same field gives the same entries, whatever stands beside it. -/
theorem Lists.congr {fields other : Json.Fields} (h : Lists fields values)
    (hfield : other.get? "tool_calls" = fields.get? "tool_calls") : Lists other values := by
  cases h with
  | list hvalues => exact .list (hfield.trans hvalues)
  | nothing hnone => exact .nothing (hfield ▸ hnone)

/-- The calls of a message are read exactly if each of the entries that it lists describes
its call. -/
theorem readFrom_entries_eq_ok_iff {calls : List ToolCall} :
    readFrom 0 (entries fields) = .ok calls ↔
      ∃ values, Lists fields values ∧ List.Forall₂ Describes values calls := by
  rw [readFrom_eq_ok_iff]
  constructor
  · intro h
    exact ⟨_, lists_entries fields, h⟩
  · rintro ⟨values, hlists, hcalls⟩
    rwa [← hlists.eq_entries]

/-- Every entry that a message lists describes a call. -/
def ListsCalls (fields : Json.Fields) : Prop :=
  ∃ entries, Lists fields entries ∧ ∀ entry ∈ entries, ∃ call, Describes entry call

theorem listsCalls_iff : ListsCalls fields ↔ ∃ calls, readFrom 0 (entries fields) = .ok calls := by
  simp only [readFrom_entries_eq_ok_iff, ListsCalls, ← Listing.exists_forall₂_iff]
  constructor
  · rintro ⟨values, hlists, calls, hcalls⟩
    exact ⟨calls, values, hlists, hcalls⟩
  · rintro ⟨calls, values, hlists, hcalls⟩
    exact ⟨values, hlists, calls, hcalls⟩

/-- Only the field of the calls decides. -/
theorem listsCalls_congr {fields other : Json.Fields}
    (hfield : other.get? "tool_calls" = fields.get? "tool_calls") :
    ListsCalls other ↔ ListsCalls fields := by
  constructor
  · rintro ⟨entries, hlists, hdescribed⟩
    exact ⟨entries, hlists.congr hfield.symm, hdescribed⟩
  · rintro ⟨entries, hlists, hdescribed⟩
    exact ⟨entries, hlists.congr hfield, hdescribed⟩

end ChatIntake.ToolCall
