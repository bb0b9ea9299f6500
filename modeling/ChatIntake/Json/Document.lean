import ChatIntake.Json.Numeral
import ChatIntake.Json.Quoted

/-!
# Reading a document

A document is one value with spaces around it. Lists and objects may be nested
only so deep, and a key given twice keeps its first place and its last value.
-/

namespace ChatIntake.Json

open ChatIntake.Text

/-- Whether a character may stand between the parts of a document. -/
def isSpacing (c : Char) : Bool :=
  c = ' ' || c = '\t' || c = '\n' || c = '\r'

/-- The rest of a text after its spaces. -/
def skipSpacing (s : List Char) : List Char := s.dropWhile isSpacing

/-- Read a value that is neither a list nor an object. -/
def readScalar : Reader Json := fun s =>
  match Reader.word ['n', 'u', 'l', 'l'] s with
  | some (_, rest) => some (null, rest)
  | none =>
    match Reader.word ['t', 'r', 'u', 'e'] s with
    | some (_, rest) => some (bool true, rest)
    | none =>
      match Reader.word ['f', 'a', 'l', 's', 'e'] s with
      | some (_, rest) => some (bool false, rest)
      | none =>
        match Quoted.read s with
        | some (text, rest) => some (string text, rest)
        | none => (Numeral.read.map number) s

/-- Read a key, a colon and a value. -/
def readField (readValue : Reader Json) : Reader (String × Json) := fun s =>
  match Quoted.read s with
  | none => none
  | some (key, rest) =>
    match Reader.char ':' (skipSpacing rest) with
    | none => none
    | some (_, rest) => (readValue.map fun value => (key, value)) (skipSpacing rest)

/-- The object of the fields read, with each key once. -/
def collect (fields : List (String × Json)) : Json :=
  object (fields.foldl (fun collected field => Keyed.insert collected field.1 field.2) [])

/-- Read a value in which lists and objects are nested at most `depth` deep. -/
def readValue : (depth : Nat) → Reader Json
  | 0, s => readScalar s
  | _ + 1, [] => none
  | depth + 1, c :: rest =>
    if c = '[' then
      (Reader.listed skipSpacing false ']' (readValue depth)).map array rest
    else if c = '{' then
      (Reader.listed skipSpacing false '}' (readField (readValue depth))).map collect rest
    else readScalar (c :: rest)

/-- The greatest depth of nesting in a document. -/
def depthMax : Nat := 127

/-- The value of a document. -/
def parse? (text : String) : Option Json :=
  match readValue depthMax (skipSpacing text.toList) with
  | none => none
  | some (value, rest) => if (skipSpacing rest).isEmpty then some value else none

end ChatIntake.Json
