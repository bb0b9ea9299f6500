import ChatIntake.Proofs.Toml.Values
import ChatIntake.Toml.Document

/-!
# Trees written and read

A tree is written as one line for each of its entries. The text is read as the tree if each
table in it has each of its keys once, and otherwise it is no settings file at all.
-/

namespace ChatIntake.Toml

open ChatIntake.Text Statement

section Writing

variable (digits : HexDigits)

end Writing

section Trees

variable {digits : HexDigits} {tree : Keyed Value}

theorem makes_valueAssignment {written : List Char} {key : String} {v : Value}
    (hkey : WritesKey written key) (h : v.Writable depthMax) (honce : v.KeyedOnce) :
    Makes (writeAssignment written (v.write digits)) (.assignment ⟨[], key⟩ v) :=
  makes_assignment hkey h.skipSpacing_write (readsAs_of_keyedOnce h honce '\n' (by decide))

end Trees

end ChatIntake.Toml
