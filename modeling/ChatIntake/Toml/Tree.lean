import ChatIntake.Toml.Value

/-!
# Trees of tables

A settings file builds up a tree of tables piece by piece. Every table remembers
how it came about, and that decides what may still be added to it: a table is
opened by one header at most, and a dotted key adds only to a table that is new or
was made by dotted keys.
-/

namespace ChatIntake.Toml

/-- How a table came about: by a header of its own, as part of the header of another
table, or as part of a dotted key. -/
inductive Origin where
  | header
  | implied
  | dotted
deriving DecidableEq

/-- A place in the tree: a finished value, a table, or a list of tables of which the
last is still open. -/
inductive Node where
  | value (value : Value)
  | table (origin : Origin) (entries : List (String × Node))
  | tables (finished : List Value) (last : List (String × Node))

namespace Node

mutual

/-- The value that a node amounts to. -/
def finish : Node → Value
  | value v => v
  | table _ entries => .table (finishAll entries)
  | tables finished last => .array (finished ++ [.table (finishAll last)])

/-- The entries that the entries of a table amount to. -/
def finishAll : List (String × Node) → List (String × Value)
  | [] => []
  | (key, node) :: rest => (key, finish node) :: finishAll rest

end

/-- A change to the entries of a table, which may be refused. -/
abbrev Change := Keyed Node → Option (Keyed Node)

/-- Change the table that a header's keys lead to. Tables missing on the way are
implied, and a list of tables is entered at its last. -/
def reach (change : Change) : List String → Change
  | [], entries => change entries
  | key :: keys, entries =>
    match entries.get? key with
    | none => (reach change keys []).map fun inner => entries.insert key (.table .implied inner)
    | some (.table origin inner) =>
      (reach change keys inner).map fun inner => entries.insert key (.table origin inner)
    | some (.tables finished last) =>
      (reach change keys last).map fun last => entries.insert key (.tables finished last)
    | some (.value _) => none

/-- Change the table that the keys before a dotted key's last one lead to. That table is
new, or was made by dotted keys. On the way to it a dotted key passes through tables
without a header of their own, and through a list of tables at its last. -/
def extend (change : Change) : List String → Change
  | [], entries => change entries
  | [key], entries =>
    match entries.get? key with
    | none => (change []).map fun inner => entries.insert key (.table .dotted inner)
    | some (.table .dotted inner) =>
      (change inner).map fun inner => entries.insert key (.table .dotted inner)
    | some _ => none
  | key :: next :: keys, entries =>
    match entries.get? key with
    | none =>
      (extend change (next :: keys) []).map fun inner => entries.insert key (.table .dotted inner)
    | some (.table .header _) => none
    | some (.table origin inner) =>
      (extend change (next :: keys) inner).map fun inner => entries.insert key (.table origin inner)
    | some (.tables finished last) =>
      (extend change (next :: keys) last).map fun last =>
        entries.insert key (.tables finished last)
    | some (.value _) => none

/-- Open a table by its header: it is new, or implied so far. -/
def openTable (key : String) : Change := fun entries =>
  match entries.get? key with
  | none => some (entries.insert key (.table .header []))
  | some (.table .implied inner) => some (entries.insert key (.table .header inner))
  | some _ => none

/-- Open a further table of a list, or the first of a new one. -/
def openElement (key : String) : Change := fun entries =>
  match entries.get? key with
  | none => some (entries.insert key (.tables [] []))
  | some (.tables finished last) =>
    some (entries.insert key (.tables (finished ++ [.table (finishAll last)]) []))
  | some _ => none

/-- Add a value under a new key. -/
def addValue (key : String) (v : Value) : Change := fun entries =>
  match entries.get? key with
  | none => some (entries.insert key (.value v))
  | some _ => none

/-- Add a value under a dotted key. -/
def assign (path : Path) (v : Value) : Change :=
  extend (addValue path.key v) path.tables

/-- Add values under dotted keys, one after the other. -/
def assignAll : List (Path × Value) → Change
  | [], entries => some entries
  | (path, v) :: rest, entries => (assign path v entries).bind (assignAll rest)

end Node

end ChatIntake.Toml
