import ChatIntake.Text.Reader

/-!
# Spacing

What may stand between the parts of a settings file: blanks and tabs, comments, and
line breaks, which are a line feed with or without a carriage return before it.
-/

namespace ChatIntake.Toml

open ChatIntake.Text

/-- Whether a character may stand between the parts of a line. -/
def isSpacing (c : Char) : Bool := c = ' ' || c = '\t'

/-- Whether a character may stand within a line of text: no control character but the tab. -/
def isPrintable (c : Char) : Bool :=
  c = '\t' || (0x20 ≤ c.toNat && c.toNat != 0x7F)

/-- The rest of a text after its blanks and tabs. -/
def skipSpacing (s : List Char) : List Char := s.dropWhile isSpacing

/-- The rest of a text after its comment, if it starts with one. -/
def skipComment (s : List Char) : List Char :=
  match s with
  | [] => []
  | c :: rest => if c = '#' then rest.dropWhile isPrintable else c :: rest

/-- Read a line break. -/
def readBreak : Reader (List Char)
  | [] => none
  | c :: rest =>
    if c = '\n' then some (['\n'], rest)
    else if c = '\r' then (Reader.char '\n').map (fun _ => ['\r', '\n']) rest
    else none

/-- The rest of a text after blanks, tabs, line breaks and, if so wished, comments, over
no more lines than the bound has characters. -/
def skipLinesWithin (comments : Bool) : (bound : List Char) → List Char → List Char
  | [], s => s
  | _ :: bound, s =>
    let line := skipSpacing s
    let line := if comments then skipComment line else line
    match readBreak line with
    | none => line
    | some (_, rest) => skipLinesWithin comments bound rest

/-- The rest of a text after blanks, tabs, line breaks and, if so wished, comments. -/
def skipLines (comments : Bool) (s : List Char) : List Char :=
  skipLinesWithin comments s s

/-- The rest of a text after the end of a line, which may hold a comment. -/
def endLine (s : List Char) : Option (List Char) :=
  match skipComment (skipSpacing s) with
  | [] => some []
  | c :: rest => (readBreak (c :: rest)).map fun result => result.2

end ChatIntake.Toml
