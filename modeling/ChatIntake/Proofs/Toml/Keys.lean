import ChatIntake.Proofs.Keyed
import ChatIntake.Toml.Document

/-!
# Documents hold each key once

No table of a settings file has two values under one key, however the file puts its
tables together. Every change to the tree of tables preserves this, so it holds of what
any row of statements amounts to; a value that is read brings only such tables along.
-/

namespace ChatIntake

namespace Text.Reader

variable {α β : Type} {P : α → Prop} {Q : β → Prop}

/-- Whatever is read has a property. -/
def Yields (P : α → Prop) (read : Reader α) : Prop :=
  ∀ s value rest, read s = some (value, rest) → P value

theorem Yields.map {read : Reader α} (h : Yields P read) {f : α → β} (hf : ∀ a, P a → Q (f a)) :
    Yields Q (Reader.map f read) := by
  intro s value rest hread
  obtain ⟨result, hresult, heq⟩ := Option.map_eq_some_iff.mp hread
  cases heq
  exact hf _ (h s _ _ hresult)

variable {skip : List Char → List Char} {trailing : Bool} {close : Char} {item : Reader α}

theorem Yields.elementsWithin (h : Yields P item) (bound : List Char) :
    Yields (fun values : List α => ∀ value ∈ values, P value)
      (elementsWithin skip trailing close item bound) := by
  induction bound with
  | nil =>
      intro s values rest hread
      cases hread
  | cons _ bound ih =>
      intro s values rest hread
      simp only [Reader.elementsWithin] at hread
      split at hread
      · cases hread
      · next first _ hfirst =>
          have hP : P first := h s _ _ hfirst
          split at hread
          · cases hread
          · split at hread
            · cases hread
              simpa using hP
            · split at hread
              · split at hread
                · cases hread
                  simpa using hP
                · split at hread
                  · cases hread
                  · next hmore =>
                      cases hread
                      exact List.forall_mem_cons.mpr ⟨hP, ih _ _ _ hmore⟩
              · cases hread

theorem Yields.listed (h : Yields P item) :
    Yields (fun values : List α => ∀ value ∈ values, P value)
      (listed skip trailing close item) := by
  intro s values rest hread
  simp only [Reader.listed] at hread
  split at hread
  · cases hread
  · split at hread
    · cases hread
      simp
    · exact h.elementsWithin _ _ _ _ hread

end Text.Reader

namespace Toml

open ChatIntake.Text

/-- A value in which every table, however deep, has each of its keys once. -/
inductive Value.KeyedOnce : Value → Prop
  | string (text : String) : KeyedOnce (.string text)
  | number (numeral : String) : KeyedOnce (.number numeral)
  | boolean (value : Bool) : KeyedOnce (.boolean value)
  | moment (moment : Moment) : KeyedOnce (.moment moment)
  | array {elements : List Value} (helements : ∀ element ∈ elements, KeyedOnce element) :
      KeyedOnce (.array elements)
  | table {entries : List (String × Value)} (hkeys : (entries.map (·.1)).Nodup)
      (hvalues : ∀ entry ∈ entries, KeyedOnce entry.2) : KeyedOnce (.table entries)

theorem Value.KeyedOnce.elements {elements : List Value} (h : KeyedOnce (.array elements)) :
    ∀ element ∈ elements, KeyedOnce element := by
  cases h with
  | array helements => exact helements

theorem Value.KeyedOnce.entries {entries : Keyed Value} (h : KeyedOnce (.table entries)) :
    Keyed.Once KeyedOnce entries := by
  cases h with
  | table hkeys hvalues => exact ⟨hkeys, hvalues⟩

namespace Node

/-- A place in the tree under which every table has each of its keys once. -/
inductive KeyedOnce : Node → Prop
  | value {v : Value} (hvalue : v.KeyedOnce) : KeyedOnce (.value v)
  | table {origin : Origin} {entries : List (String × Node)}
      (hkeys : (entries.map (·.1)).Nodup) (hnodes : ∀ entry ∈ entries, KeyedOnce entry.2) :
      KeyedOnce (.table origin entries)
  | tables {finished : List Value} {last : List (String × Node)}
      (hfinished : ∀ v ∈ finished, v.KeyedOnce)
      (hkeys : (last.map (·.1)).Nodup) (hnodes : ∀ entry ∈ last, KeyedOnce entry.2) :
      KeyedOnce (.tables finished last)

namespace KeyedOnce

theorem ofEntries {origin : Origin} {inner : Keyed Node} (h : Keyed.Once KeyedOnce inner) :
    KeyedOnce (.table origin inner) :=
  .table h.keys h.values

theorem ofLast {finished : List Value} {inner : Keyed Node}
    (hfinished : ∀ v ∈ finished, v.KeyedOnce) (h : Keyed.Once KeyedOnce inner) :
    KeyedOnce (.tables finished inner) :=
  .tables hfinished h.keys h.values

theorem entries {origin : Origin} {inner : Keyed Node} (h : KeyedOnce (.table origin inner)) :
    Keyed.Once KeyedOnce inner := by
  cases h with
  | table hkeys hnodes => exact ⟨hkeys, hnodes⟩

theorem last {finished : List Value} {inner : Keyed Node}
    (h : KeyedOnce (.tables finished inner)) : Keyed.Once KeyedOnce inner := by
  cases h with
  | tables hfinished hkeys hnodes => exact ⟨hkeys, hnodes⟩

theorem finished {finished : List Value} {inner : Keyed Node}
    (h : KeyedOnce (.tables finished inner)) : ∀ v ∈ finished, v.KeyedOnce := by
  cases h with
  | tables hfinished hkeys hnodes => exact hfinished

end KeyedOnce

theorem finishAll_eq_map (entries : Keyed Node) :
    finishAll entries = entries.map fun entry => (entry.1, entry.2.finish) := by
  induction entries with
  | nil => rfl
  | cons entry rest ih => simp only [finishAll, ih, List.map_cons]

theorem keyedOnce_finishAll {entries : Keyed Node} (hkeys : (entries.map (·.1)).Nodup)
    (hnodes : ∀ entry ∈ entries, entry.2.finish.KeyedOnce) :
    (Value.table (finishAll entries)).KeyedOnce := by
  rw [finishAll_eq_map]
  apply Value.KeyedOnce.table
  · rwa [List.map_map]
  · intro entry hentry
    obtain ⟨place, hplace, rfl⟩ := List.mem_map.mp hentry
    exact hnodes place hplace

theorem KeyedOnce.finish {node : Node} (h : node.KeyedOnce) : node.finish.KeyedOnce := by
  induction h with
  | value hvalue => rwa [Node.finish]
  | table hkeys _ ih =>
      rw [Node.finish]
      exact keyedOnce_finishAll hkeys ih
  | tables hfinished hkeys _ ih =>
      rw [Node.finish]
      apply Value.KeyedOnce.array
      intro v hv
      rcases List.mem_append.mp hv with hv | hv
      · exact hfinished v hv
      · rw [List.mem_singleton.mp hv]
        exact keyedOnce_finishAll hkeys ih

theorem keyedOnce_table_finishAll {entries : Keyed Node} (h : Keyed.Once KeyedOnce entries) :
    (Value.table (finishAll entries)).KeyedOnce :=
  keyedOnce_finishAll h.keys fun entry hentry => (h.values entry hentry).finish

/-- A change after which every table still has each of its keys once. -/
def Keeps (change : Change) : Prop :=
  ∀ entries result, Keyed.Once KeyedOnce entries → change entries = some result →
    Keyed.Once KeyedOnce result

namespace Keeps

variable {change : Change}

/-- A change further down is put back under its key. -/
theorem put {inner : Keyed Node} {wrap : Keyed Node → Node} {entries result : Keyed Node}
    {key : String} (hchange : Keeps change) (hinner : Keyed.Once KeyedOnce inner)
    (hwrap : ∀ inner, Keyed.Once KeyedOnce inner → (wrap inner).KeyedOnce)
    (hentries : Keyed.Once KeyedOnce entries)
    (h : ((change inner).map fun inner => entries.insert key (wrap inner)) = some result) :
    Keyed.Once KeyedOnce result := by
  obtain ⟨changed, hchanged, rfl⟩ := Option.map_eq_some_iff.mp h
  exact hentries.insert (hwrap _ (hchange _ _ hinner hchanged))

theorem reach (h : Keeps change) (keys : List String) : Keeps (reach change keys) := by
  induction keys with
  | nil => exact h
  | cons key keys ih =>
      intro entries result hentries hresult
      simp only [Node.reach] at hresult
      split at hresult
      · exact ih.put .nil (fun _ => .ofEntries) hentries hresult
      · next hget =>
          exact ih.put (hentries.of_get? hget).entries (fun _ => .ofEntries) hentries hresult
      · next hget =>
          have hnode := hentries.of_get? hget
          exact ih.put hnode.last (fun _ => .ofLast hnode.finished) hentries hresult
      · cases hresult

theorem extend (h : Keeps change) (keys : List String) : Keeps (extend change keys) := by
  induction keys with
  | nil => exact h
  | cons key keys ih =>
      intro entries result hentries hresult
      cases keys with
      | nil =>
          simp only [Node.extend] at hresult
          split at hresult
          · exact h.put .nil (fun _ => .ofEntries) hentries hresult
          · next hget =>
              exact h.put (hentries.of_get? hget).entries (fun _ => .ofEntries) hentries hresult
          · cases hresult
      | cons next keys =>
          simp only [Node.extend] at hresult
          split at hresult
          · exact ih.put .nil (fun _ => .ofEntries) hentries hresult
          · cases hresult
          · next hget =>
              exact ih.put (hentries.of_get? hget).entries (fun _ => .ofEntries) hentries hresult
          · next hget =>
              have hnode := hentries.of_get? hget
              exact ih.put hnode.last (fun _ => .ofLast hnode.finished) hentries hresult
          · cases hresult

theorem openTable (key : String) : Keeps (openTable key) := by
  intro entries result hentries hresult
  simp only [Node.openTable] at hresult
  split at hresult
  · cases hresult
    exact hentries.insert (.ofEntries .nil)
  · next hget =>
      cases hresult
      exact hentries.insert (.ofEntries (hentries.of_get? hget).entries)
  · cases hresult

theorem openElement (key : String) : Keeps (openElement key) := by
  intro entries result hentries hresult
  simp only [Node.openElement] at hresult
  split at hresult
  · cases hresult
    exact hentries.insert (.ofLast (by simp) .nil)
  · next hget =>
      cases hresult
      have hnode := hentries.of_get? hget
      refine hentries.insert (.ofLast ?_ .nil)
      intro v hv
      rcases List.mem_append.mp hv with hv | hv
      · exact hnode.finished v hv
      · rw [List.mem_singleton.mp hv]
        exact keyedOnce_table_finishAll hnode.last
  · cases hresult

theorem addValue (key : String) {v : Value} (hv : v.KeyedOnce) : Keeps (addValue key v) := by
  intro entries result hentries hresult
  simp only [Node.addValue] at hresult
  split at hresult
  · cases hresult
    exact hentries.insert (.value hv)
  · cases hresult

theorem assign (path : Path) {v : Value} (hv : v.KeyedOnce) : Keeps (assign path v) :=
  (addValue path.key hv).extend path.tables

theorem assignAll {assignments : List (Path × Value)}
    (h : ∀ assignment ∈ assignments, assignment.2.KeyedOnce) : Keeps (assignAll assignments) := by
  induction assignments with
  | nil =>
      intro entries result hentries hresult
      cases hresult
      exact hentries
  | cons assignment rest ih =>
      intro entries result hentries hresult
      obtain ⟨hfirst, hrest⟩ := List.forall_mem_cons.mp h
      obtain ⟨between, hbetween, hresult⟩ := Option.bind_eq_some_iff.mp hresult
      exact ih hrest _ _ (assign _ hfirst _ _ hentries hbetween) hresult

end Keeps

end Node

namespace Statement

/-- A statement whose value, if it has one, brings only tables with each key once. -/
def KeyedOnce : Statement → Prop
  | table _ => True
  | element _ => True
  | assignment _ v => v.KeyedOnce

theorem yields_readScalar : Reader.Yields Value.KeyedOnce readScalar := by
  intro s v rest hread
  simp only [readScalar] at hread
  split at hread
  · cases hread
    exact .string _
  · split at hread
    · cases hread
      exact .moment _
    · obtain ⟨word, hword, heq⟩ := Option.map_eq_some_iff.mp hread
      cases heq
      simp only [ofWord?] at hword
      repeat' split at hword
      all_goals cases hword
      · exact .boolean true
      · exact .boolean false
      · exact .number _

theorem yields_readAssignment {readValue : Reader Value}
    (h : Reader.Yields Value.KeyedOnce readValue) :
    Reader.Yields (fun result : Path × Value => result.2.KeyedOnce)
      (readAssignment readValue) := by
  intro s result rest hread
  simp only [readAssignment] at hread
  split at hread
  · cases hread
  · next path _ _ =>
      split at hread
      · cases hread
      · have hvalue : Reader.Yields (fun result : Path × Value => result.2.KeyedOnce)
            (readValue.map fun v => (path, v)) := h.map fun _ hv => hv
        exact hvalue _ _ _ hread

theorem keyedOnce_of_inlineTable? {assignments : List (Path × Value)} {v : Value}
    (h : ∀ assignment ∈ assignments, assignment.2.KeyedOnce)
    (htable : inlineTable? assignments = some v) : v.KeyedOnce := by
  obtain ⟨entries, hentries, rfl⟩ := Option.map_eq_some_iff.mp htable
  exact Node.keyedOnce_table_finishAll (Node.Keeps.assignAll h _ _ .nil hentries)

theorem yields_readValue (depth : Nat) : Reader.Yields Value.KeyedOnce (readValue depth) := by
  induction depth with
  | zero => exact yields_readScalar
  | succ depth ih =>
      intro s v rest hread
      cases s with
      | nil => cases hread
      | cons c s =>
          simp only [readValue] at hread
          split at hread
          · exact ih.listed.map (fun _ helements => .array helements) _ _ _ hread
          · split at hread
            · split at hread
              · cases hread
              · next hassignments =>
                  obtain ⟨table, htable, heq⟩ := Option.map_eq_some_iff.mp hread
                  cases heq
                  have hvalues := (yields_readAssignment ih).listed _ _ _ hassignments
                  exact keyedOnce_of_inlineTable? hvalues htable
            · exact yields_readScalar _ _ _ hread

theorem yields_read : Reader.Yields KeyedOnce read := by
  intro s statement rest hread
  simp only [read] at hread
  split at hread
  · obtain ⟨path, _, heq⟩ := Option.map_eq_some_iff.mp hread
    cases heq
    trivial
  · split at hread
    · obtain ⟨path, _, heq⟩ := Option.map_eq_some_iff.mp hread
      cases heq
      trivial
    · have hassignment : Reader.Yields KeyedOnce
          ((readAssignment (readValue depthMax)).map fun result => assignment result.1 result.2) :=
        (yields_readAssignment (yields_readValue depthMax)).map fun _ hv => hv
      exact hassignment _ _ _ hread

theorem keyedOnce_of_readAllWithin {bound s : List Char} {statements : List Statement}
    (h : readAllWithin bound s = some statements) :
    ∀ statement ∈ statements, statement.KeyedOnce := by
  induction bound generalizing s statements with
  | nil =>
      simp only [readAllWithin] at h
      split at h <;> cases h
      simp
  | cons _ bound ih =>
      simp only [readAllWithin] at h
      split at h
      · cases h
        simp
      · split at h
        · exact ih h
        · split at h
          · cases h
          · next hread =>
              split at h
              · cases h
              · split at h
                · cases h
                · next hrest =>
                    cases h
                    exact List.forall_mem_cons.mpr ⟨yields_read _ _ _ hread, ih hrest⟩

theorem keeps_run {statements : List Statement} (current : List String)
    (h : ∀ statement ∈ statements, statement.KeyedOnce) : Node.Keeps (run current statements) := by
  induction statements generalizing current with
  | nil =>
      intro entries result hentries hresult
      cases hresult
      exact hentries
  | cons statement rest ih =>
      intro entries result hentries hresult
      obtain ⟨hfirst, hrest⟩ := List.forall_mem_cons.mp h
      cases statement with
      | table path =>
          obtain ⟨between, hbetween, hresult⟩ := Option.bind_eq_some_iff.mp hresult
          have hopened := (Node.Keeps.openTable path.key).reach path.tables _ _ hentries hbetween
          exact ih _ hrest _ _ hopened hresult
      | element path =>
          obtain ⟨between, hbetween, hresult⟩ := Option.bind_eq_some_iff.mp hresult
          have hopened := (Node.Keeps.openElement path.key).reach path.tables _ _ hentries hbetween
          exact ih _ hrest _ _ hopened hresult
      | assignment path v =>
          obtain ⟨between, hbetween, hresult⟩ := Option.bind_eq_some_iff.mp hresult
          have hassigned := (Node.Keeps.assign path hfirst).reach current _ _ hentries hbetween
          exact ih _ hrest _ _ hassigned hresult

end Statement

/-- In what a settings file amounts to, every table has each of its keys once. -/
theorem once_of_parse? {text : String} {tree : Keyed Value} (h : parse? text = some tree) :
    Keyed.Once Value.KeyedOnce tree := by
  simp only [parse?] at h
  split at h
  · cases h
  · next statements hread =>
      obtain ⟨root, hroot, rfl⟩ := Option.map_eq_some_iff.mp h
      have hstatements := Statement.keyedOnce_of_readAllWithin hread
      have honce := Statement.keeps_run [] hstatements _ _ .nil hroot
      exact (Node.keyedOnce_table_finishAll honce).entries

end Toml

end ChatIntake
