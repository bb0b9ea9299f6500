import ChatIntake.Keyed
import ChatIntake.Toml.Moment

/-!
# Values of a settings file

The values that a settings file may hold. Numbers are kept as they are written,
since no setting is a number.
-/

namespace ChatIntake.Toml

/-- A value of a settings file. -/
inductive Value where
  | string (text : String)
  | number (numeral : String)
  | boolean (value : Bool)
  | moment (moment : Moment)
  | array (elements : List Value)
  | table (entries : List (String × Value))

/-- A dotted key: the tables it passes through, and the key in the last of them. -/
structure Path where
  tables : List String
  key : String
deriving DecidableEq

namespace Path

/-- All the keys of a path. -/
def keys (path : Path) : List String := path.tables ++ [path.key]

/-- The path that passes through one more table first. -/
def within (table : String) (path : Path) : Path := ⟨table :: path.tables, path.key⟩

end Path

end ChatIntake.Toml
