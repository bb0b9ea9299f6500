import ChatIntake.Toml.Numeral
import ChatIntake.Toml.Quoted
import ChatIntake.Toml.Tree

/-!
# Statements

A settings file is a row of statements, one to a line: the header of a table, the
header of a further table of a list, or a value under a dotted key.
-/

namespace ChatIntake.Toml

open ChatIntake.Text

/-- A line of a settings file that is not blank. -/
inductive Statement where
  | table (path : Path)
  | element (path : Path)
  | assignment (path : Path) (value : Value)

namespace Statement

/-- Whether a character may stand in a key without marks. -/
def isBare (c : Char) : Bool := c.isAlphanum || c = '_' || c = '-'

/-- Read a key. -/
def readKey : Reader String := fun s =>
  match Quoted.readKey s with
  | some result => some result
  | none =>
    if (s.takeWhile isBare).isEmpty then none
    else some (String.ofList (s.takeWhile isBare), s.dropWhile isBare)

/-- Read at most `count` keys with points between them, and the spacing after the last. -/
def readKeys : (count : Nat) → Reader Path
  | 0, _ => none
  | count + 1, s =>
    match readKey s with
    | none => none
    | some (key, rest) =>
      match skipSpacing rest with
      | [] => some (⟨[], key⟩, [])
      | c :: rest =>
        if c = '.' then
          match readKeys count (skipSpacing rest) with
          | none => none
          | some (path, rest) => some (path.within key, rest)
        else some (⟨[], key⟩, c :: rest)

/-- The greatest number of keys in a path. -/
def keysMax : Nat := 80

/-- Read keys with points between them, and the spacing after the last. -/
def readPath : Reader Path := readKeys keysMax

/-- Whether a character ends a word. -/
def endsWord (c : Char) : Bool :=
  isSpacing c || c = '\n' || c = '\r' || c = '#' || c = '=' || c = ',' ||
    c = '[' || c = ']' || c = '\x7b' || c = '\x7d'

/-- Whether a character may stand in a word. -/
def isWordChar (c : Char) : Bool := !endsWord c

/-- Whether a text goes on with a word after its tabs. Marks would start a text instead. -/
def resumesWord (s : List Char) : Bool :=
  match s.dropWhile (· = '\t') with
  | [] => false
  | c :: _ => isWordChar c && c != '"' && c != '\x27'

/-- Split a text after the word at its front. Tabs belong to a word if it goes on after
them. -/
def splitWord : List Char → List Char × List Char
  | [] => ([], [])
  | c :: rest =>
    if isWordChar c || (c = '\t' && resumesWord rest) then
      match splitWord rest with
      | (word, after) => (c :: word, after)
    else ([], c :: rest)

/-- The value that a word stands for. -/
def ofWord? (word : List Char) : Option Value :=
  if word = ['t', 'r', 'u', 'e'] then some (.boolean true)
  else if word = ['f', 'a', 'l', 's', 'e'] then some (.boolean false)
  else if Numeral.isNumeral word then some (.number (String.ofList word))
  else none

/-- Read a value that is neither a list nor an inline table. -/
def readScalar : Reader Value := fun s =>
  match Quoted.read s with
  | some (text, rest) => some (.string text, rest)
  | none =>
    match Moment.read s with
    | some (moment, rest) => some (.moment moment, rest)
    | none =>
      match splitWord s with
      | (word, rest) => (ofWord? word).map fun v => (v, rest)

/-- Read a dotted key, an equals sign and a value. -/
def readAssignment (readValue : Reader Value) : Reader (Path × Value) := fun s =>
  match readPath s with
  | none => none
  | some (path, rest) =>
    match Reader.char '=' rest with
    | none => none
    | some (_, rest) => (readValue.map fun v => (path, v)) (skipSpacing rest)

/-- The inline table of the values read. -/
def inlineTable? (assignments : List (Path × Value)) : Option Value :=
  (Node.assignAll assignments []).map fun entries => .table (Node.finishAll entries)

/-- Read a value in which lists and inline tables are nested at most `depth` deep. -/
def readValue : (depth : Nat) → Reader Value
  | 0, s => readScalar s
  | _ + 1, [] => none
  | depth + 1, c :: rest =>
    if c = '[' then
      (Reader.listed (skipLines true) true ']' (readValue depth)).map Value.array rest
    else if c = '\x7b' then
      match Reader.listed skipSpacing false '\x7d' (readAssignment (readValue depth)) rest with
      | none => none
      | some (assignments, rest) => (inlineTable? assignments).map fun v => (v, rest)
    else readScalar (c :: rest)

/-- The greatest depth of nesting in a value. -/
def depthMax : Nat := 80

/-- Read the path and the closing brackets of a header. -/
def readHeader (close : List Char) : Reader Path := fun s =>
  match readPath (skipSpacing s) with
  | none => none
  | some (path, rest) => ((Reader.word close).map fun _ => path) rest

/-- Read a statement. -/
def read : Reader Statement := fun s =>
  match Reader.word ['[', '['] s with
  | some (_, rest) => ((readHeader [']', ']']).map element) rest
  | none =>
    match Reader.char '[' s with
    | some (_, rest) => ((readHeader [']']).map table) rest
    | none =>
      ((readAssignment (readValue depthMax)).map fun result => assignment result.1 result.2) s

/-- Read every statement up to the end of the text, over no more lines than the bound
has characters. -/
def readAllWithin : (bound : List Char) → List Char → Option (List Statement)
  | [], s => if (skipSpacing s).isEmpty then some [] else none
  | _ :: bound, s =>
    match skipSpacing s with
    | [] => some []
    | c :: line =>
      match endLine (c :: line) with
      | some rest => readAllWithin bound rest
      | none =>
        match read (c :: line) with
        | none => none
        | some (statement, rest) =>
          match endLine rest with
          | none => none
          | some rest =>
            match readAllWithin bound rest with
            | none => none
            | some statements => some (statement :: statements)

/-- Read every statement up to the end of the text. -/
def readAll (s : List Char) : Option (List Statement) := readAllWithin s s

end Statement

end ChatIntake.Toml
