import ChatIntake.Toml.Statement

/-!
# Documents

The table that the statements of a settings file amount to. A header decides which
table the values after it belong to.
-/

namespace ChatIntake.Toml

namespace Statement

/-- Carry out statements in the table of the keys `current`, in a tree with the given
entries at its root. -/
def run : (current : List String) → List Statement → Node.Change
  | _, [], root => some root
  | _, table path :: rest, root =>
    (Node.reach (Node.openTable path.key) path.tables root).bind (run path.keys rest)
  | _, element path :: rest, root =>
    (Node.reach (Node.openElement path.key) path.tables root).bind (run path.keys rest)
  | current, assignment path v :: rest, root =>
    (Node.reach (Node.assign path v) current root).bind (run current rest)

end Statement

/-- A text without the mark that may stand at its very start. -/
def unmarked (s : List Char) : List Char :=
  match s with
  | [] => []
  | c :: rest => if c = '\ufeff' then rest else c :: rest

/-- The table that a settings file amounts to. -/
def parse? (text : String) : Option (Keyed Value) :=
  match Statement.readAll (unmarked text.toList) with
  | none => none
  | some statements => (Statement.run [] statements []).map Node.finishAll

end ChatIntake.Toml
