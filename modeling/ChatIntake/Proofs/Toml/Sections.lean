import ChatIntake.Proofs.Toml.Keys

/-!
# Sections of a settings file

A section is the header of a table with values assigned to keys below it. The table is
found again at each assignment, and a value under a key that is new there comes to stand
after the others. So a section fills its table with its values, in the order of its lines,
and one with a key for two of them is refused.
-/

namespace ChatIntake.Toml

namespace Node

/-- In these trees the keys lead to the table with the given entries, whatever they are. -/
def LeadsTo (keys : List String) (tree : Keyed Node → Keyed Node) : Prop :=
  ∀ change inner, reach change keys (tree inner) = (change inner).map tree

theorem leadsTo_nil : LeadsTo [] fun inner => inner := by
  intro change inner
  simp [reach]

/-- A table that stands last leads on to whatever its own entries lead to. -/
theorem LeadsTo.under {keys : List String} {tree : Keyed Node → Keyed Node}
    (h : LeadsTo keys tree) {key : String} {before : Keyed Node} (hkey : key ∉ before.map (·.1))
    (origin : Origin) :
    LeadsTo (key :: keys) fun inner => before ++ [(key, .table origin (tree inner))] := by
  intro change inner
  have hget : Keyed.get? (before ++ [(key, Node.table origin (tree inner))]) key =
      some (.table origin (tree inner)) := by
    rw [Keyed.get?_append_of_notMem hkey]
    exact if_pos rfl
  have hput : ∀ changed, Keyed.insert (before ++ [(key, Node.table origin (tree inner))]) key
      (.table origin changed) = before ++ [(key, .table origin changed)] := by
    intro changed
    rw [Keyed.insert_append_of_notMem hkey, Keyed.insert, if_pos rfl]
  simp only [reach, hget, h change inner, Option.map_map, Function.comp_def, hput]

/-- The same holds of a table that stands alone. -/
theorem LeadsTo.alone {keys : List String} {tree : Keyed Node → Keyed Node}
    (h : LeadsTo keys tree) {key : String} (origin : Origin) :
    LeadsTo (key :: keys) fun inner => [(key, .table origin (tree inner))] := by
  have hkey : key ∉ ([] : Keyed Node).map (·.1) := List.not_mem_nil
  exact h.under hkey origin

/-- A table that is missing is made at the end, and implied. -/
theorem reach_of_notMem {key : String} {entries : Keyed Node} (h : key ∉ entries.map (·.1))
    (change : Change) (keys : List String) :
    reach change (key :: keys) entries =
      (reach change keys []).map fun inner => entries ++ [(key, .table .implied inner)] := by
  simp only [reach, Keyed.get?_eq_none_of_notMem h, Keyed.insert_of_notMem h]

theorem openTable_of_notMem {key : String} {entries : Keyed Node}
    (h : key ∉ entries.map (·.1)) :
    openTable key entries = some (entries ++ [(key, .table .header [])]) := by
  simp only [openTable, Keyed.get?_eq_none_of_notMem h, Keyed.insert_of_notMem h]

/-- The entries of a table that holds finished values. -/
def ofValues (values : Keyed Value) : Keyed Node :=
  values.map fun entry => (entry.1, .value entry.2)

theorem finishAll_ofValues (values : Keyed Value) : finishAll (ofValues values) = values := by
  rw [finishAll_eq_map, ofValues, List.map_map]
  apply List.map_id''
  intro entry
  simp only [Function.comp_apply, finish]

theorem assign_of_notMem {entries : Keyed Node} {key : String} (h : key ∉ entries.map (·.1))
    (v : Value) : assign ⟨[], key⟩ v entries = some (entries ++ [(key, .value v)]) := by
  have hnone : entries.get? key = none := Keyed.get?_eq_none_of_notMem h
  simp only [assign, extend, addValue, hnone, Keyed.insert_of_notMem h]

theorem assign_of_mem {entries : Keyed Node} {key : String} (h : key ∈ entries.map (·.1))
    (v : Value) : assign ⟨[], key⟩ v entries = none := by
  obtain ⟨node, hnode⟩ : ∃ node, entries.get? key = some node := Keyed.exists_get?_of_mem h
  simp only [assign, extend, addValue, hnode]

/-- Values to be put under one key each. -/
def assignments (values : Keyed Value) : List (Path × Value) :=
  values.map fun entry => (⟨[], entry.1⟩, entry.2)

theorem assignments_cons (entry : String × Value) (values : Keyed Value) :
    assignments (entry :: values) = (⟨[], entry.1⟩, entry.2) :: assignments values := rfl

/-- Values come after what a table holds, and every key has to be new. -/
theorem assignAll_assignments (values : Keyed Value) {before : Keyed Node}
    (hbefore : (before.map (·.1)).Nodup) :
    assignAll (assignments values) before =
      if (before.map (·.1) ++ values.map (·.1)).Nodup then some (before ++ ofValues values)
      else none := by
  induction values generalizing before with
  | nil => simp [assignments, assignAll, ofValues, hbefore]
  | cons entry values ih =>
      by_cases hmem : entry.1 ∈ before.map (·.1)
      · have hdoubled : ¬ (before.map (·.1) ++ (entry :: values).map (·.1)).Nodup := by
          intro hnodup
          exact (List.nodup_append.mp hnodup).2.2 _ hmem _ List.mem_cons_self rfl
        rw [if_neg hdoubled, assignments, List.map_cons, assignAll, assign_of_mem hmem,
          Option.bind_none]
      · have hkeys : ((before ++ [(entry.1, Node.value entry.2)]).map (·.1)).Nodup := by
          rw [List.map_append, List.map_singleton, ← List.concat_eq_append]
          exact hbefore.concat hmem
        have hrest := ih hkeys
        simp only [assignments, ofValues, List.map_cons, List.map_append, List.map_nil,
          List.append_assoc, List.singleton_append, assignAll, assign_of_notMem hmem,
          Option.bind_some] at hrest ⊢
        exact hrest

end Node

namespace Statement

open Node

/-- The assignments of values, each to one key. -/
def assignValues (values : Keyed Value) : List Statement :=
  values.map fun entry => .assignment ⟨[], entry.1⟩ entry.2

/-- Assignments add their values to the table that the keys of their section lead to. -/
theorem run_assignValues {keys : List String} {tree : Keyed Node → Keyed Node}
    (hleads : LeadsTo keys tree) (values : Keyed Value) (inner : Keyed Node)
    (rest : List Statement) :
    run keys (assignValues values ++ rest) (tree inner) =
      ((assignAll (assignments values) inner).map tree).bind (run keys rest) := by
  induction values generalizing inner with
  | nil => simp [assignValues, assignments, assignAll]
  | cons entry values ih =>
      simp only [assignValues, assignments, List.map_cons, List.cons_append, run, assignAll] at ih ⊢
      rw [hleads]
      cases assign ⟨[], entry.1⟩ entry.2 inner with
      | none => rfl
      | some inner => exact ih inner

/-- A section fills the table that its header opens. -/
theorem run_section {path : Path} {tree : Keyed Node → Keyed Node}
    (hleads : LeadsTo path.keys tree) {root : Keyed Node}
    (hopen : reach (openTable path.key) path.tables root = some (tree []))
    {values : Keyed Value} (hkeys : (values.map (·.1)).Nodup) (current : List String)
    (rest : List Statement) :
    run current (.table path :: assignValues values ++ rest) root =
      run path.keys rest (tree (ofValues values)) := by
  have hvalues : assignAll (assignments values) [] = some (ofValues values) := by
    have hnil : (([] : Keyed Node).map (·.1)).Nodup := List.nodup_nil
    rw [assignAll_assignments values hnil, if_pos (by simpa using hkeys), List.nil_append]
  simp only [List.cons_append, run, hopen, Option.bind_some]
  rw [run_assignValues hleads, hvalues, Option.map_some, Option.bind_some]

end Statement

end ChatIntake.Toml
