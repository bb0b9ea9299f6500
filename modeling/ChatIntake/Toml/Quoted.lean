import ChatIntake.Text.Hex
import ChatIntake.Toml.Spacing

/-!
# Quoted texts

Texts between quotation marks, with escapes, and between apostrophes, without. A
text between triple marks may go over several lines: a line break right after the
opening marks does not count, and a backslash at the end of a line takes away the
spacing up to the next character.
-/

namespace ChatIntake.Toml.Quoted

open ChatIntake.Text

/-- The characters that one letter after a backslash stands for. -/
def letters : List (Char × Char) :=
  [('b', '\x08'), ('t', '\t'), ('n', '\n'), ('f', '\x0c'), ('r', '\r'), ('"', '"'), ('\\', '\\')]

/-- Read the code point of an escape. -/
def readCodePoint (count : Nat) : Reader Char := fun s =>
  match readHex count 0 s with
  | none => none
  | some (n, rest) => (scalar? n).map fun c => (c, rest)

/-- Read what follows a backslash. -/
def readEscape : Reader Char
  | [] => none
  | letter :: rest =>
    if letter = 'u' then readCodePoint 4 rest
    else if letter = 'U' then readCodePoint 8 rest
    else (letters.lookup letter).map fun c => (c, rest)

/-- Read a character that stands for itself. -/
def readPlain : Reader Char
  | [] => none
  | c :: rest => if isPrintable c then some (c, rest) else none

/-- Read a character, escaped or not. -/
def readChar : Reader Char
  | [] => none
  | c :: rest => if c = '\\' then readEscape rest else readPlain (c :: rest)

/-- Read a text of one line whose opening mark was taken. -/
def readLine (mark : Char) (step : Reader Char) : Reader String :=
  Reader.map (fun result => String.ofList result.1) (Reader.untilClosed (Reader.char mark) step)

/-- Read the closing triple marks. Up to two more marks may stand before them, which
belong to the text. -/
def readClose (mark : Char) : Reader (List Char) := fun s =>
  match Reader.word [mark, mark, mark] s with
  | none => none
  | some (_, rest) =>
    match Reader.word [mark, mark] rest with
    | some (_, rest) => some ([mark, mark], rest)
    | none =>
      match Reader.char mark rest with
      | some (_, rest) => some ([mark], rest)
      | none => some ([], rest)

/-- Read a line break, or else a character. -/
def readPiece (step : Reader Char) : Reader (List Char) := fun s =>
  match readBreak s with
  | some result => some result
  | none => (step.map fun c => [c]) s

/-- Read a backslash at the end of a line with the spacing after it, or else a piece. -/
def readFolded : Reader (List Char) := fun s =>
  match s with
  | [] => none
  | c :: rest =>
    if c = '\\' ∧ (readBreak (skipSpacing rest)).isSome = true then some ([], skipLines false rest)
    else readPiece readChar (c :: rest)

/-- Read a text of several lines whose opening marks were taken. -/
def readLines (mark : Char) (step : Reader (List Char)) : Reader String := fun s =>
  let start := match readBreak s with
    | some (_, rest) => rest
    | none => s
  (Reader.untilClosed (readClose mark) step start).map fun ((pieces, last), rest) =>
    (String.ofList (pieces.flatten ++ last), rest)

/-- Read a key in quotation marks or apostrophes. -/
def readKey : Reader String
  | [] => none
  | c :: rest =>
    if c = '"' then readLine '"' readChar rest
    else if c = '\x27' then readLine '\x27' readPlain rest
    else none

/-- Read a text in marks of any kind. -/
def read : Reader String := fun s =>
  match Reader.word ['"', '"', '"'] s with
  | some (_, rest) => readLines '"' readFolded rest
  | none =>
    match Reader.word ['\x27', '\x27', '\x27'] s with
    | some (_, rest) => readLines '\x27' (readPiece readPlain) rest
    | none => readKey s

end ChatIntake.Toml.Quoted
