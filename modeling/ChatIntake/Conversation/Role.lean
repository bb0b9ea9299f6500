/-!
# Roles

Who speaks in a message. A role is named by one lower-case word, and only the
exact word names it.
-/

namespace ChatIntake

/-- The speaker of a message. -/
inductive Role where
  | system
  | developer
  | user
  | assistant
  | tool
deriving DecidableEq

namespace Role

/-- Every role. -/
def all : List Role := [system, developer, user, assistant, tool]

/-- The word that names a role in a message. -/
def text : Role → String
  | system => "system"
  | developer => "developer"
  | user => "user"
  | assistant => "assistant"
  | tool => "tool"

/-- The name of a role with a capital letter. -/
def title : Role → String
  | system => "System"
  | developer => "Developer"
  | user => "User"
  | assistant => "Assistant"
  | tool => "Tool"

/-- The role named by a word. -/
def ofText? (word : String) : Option Role :=
  all.find? fun role => role.text == word

theorem text_injective {a b : Role} (h : a.text = b.text) : a = b := by
  cases a <;> cases b <;> first | rfl | exact absurd h (by decide)

theorem ofText?_eq_some_iff {word : String} {role : Role} :
    ofText? word = some role ↔ word = role.text := by
  constructor
  · intro h
    have found := List.find?_some (p := fun role : Role => role.text == word) h
    exact (beq_iff_eq.mp found).symm
  · rintro rfl
    cases role <;> decide

end Role

end ChatIntake
