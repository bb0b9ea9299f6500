import ChatIntake.Text.Hex

/-!
# Numerals of a settings file

Which words are taken for numbers. Decimal fractions and numbers in other bases are
looked at digit by digit. A whole number is looked into no further than an underscore
after its first digits, except that every underscore has to stand between digits.
-/

namespace ChatIntake.Toml.Numeral

/-- Whether a character is a sign. -/
def isSign (c : Char) : Bool := c = '+' || c = '-'

/-- Whether a character is a digit of any base. -/
def isHexDigit (c : Char) : Bool := (Text.hexValue? c).isSome

/-- Whether a character is an octal digit. -/
def isOctalDigit (c : Char) : Bool := '0' ≤ c && c ≤ '7'

/-- Whether a character is a binary digit. -/
def isBinaryDigit (c : Char) : Bool := c = '0' || c = '1'

/-- Whether each underscore has a digit on both sides, in a word after the character
`previous`. -/
def separates (isDigit : Char → Bool) (previous : Char) : List Char → Bool
  | [] => true
  | c :: rest =>
    (c != '_' || (isDigit previous && rest.head?.any isDigit)) && separates isDigit c rest

/-- Whether a word has its underscores between digits only; a blank stands for its start. -/
def isSeparated (isDigit : Char → Bool) (word : List Char) : Bool := separates isDigit ' ' word

/-- A word without the sign in front of it, if there is one. -/
def unsigned (word : List Char) : List Char :=
  match word with
  | [] => []
  | c :: rest => if isSign c then rest else c :: rest

/-- Whether a word without a sign is a row of digits without a leading zero. -/
def isWhole (word : List Char) : Bool :=
  !word.isEmpty && word.all Char.isDigit && (word.length == 1 || word.head? != some '0')

/-- Whether a word without a sign goes on with an underscore after its first digits, of
which the first is not zero, and has neither a point nor the letter of an exponent. -/
def isGrouped (word : List Char) : Bool :=
  (word.dropWhile Char.isDigit).head? == some '_' && word.head? != some '0' &&
    word.all fun c => c != '.' && c != 'e' && c != 'E'

/-- Whether a character may stand in a row of digits. -/
def isGroupChar (c : Char) : Bool := c.isDigit || c = '_'

/-- The number of digits in a word. -/
def digitCount (word : List Char) : Nat := (word.filter Char.isDigit).length

/-- Whether a word is empty or an exponent part. -/
def isExponent (word : List Char) : Bool :=
  match word with
  | [] => true
  | c :: rest =>
    (c = 'e' || c = 'E') && (unsigned rest).all isGroupChar && digitCount (unsigned rest) != 0

/-- Whether a word is empty, or a fraction after a point or an exponent part or both. -/
def isFraction (word : List Char) : Bool :=
  match word with
  | [] => true
  | c :: rest =>
    if c = '.' then
      digitCount (rest.takeWhile isGroupChar) != 0 && isExponent (rest.dropWhile isGroupChar)
    else isExponent (c :: rest)

/-- Whether a word without a sign is a decimal number, its underscores aside. -/
def isDecimal (word : List Char) : Bool :=
  let mantissa := word.takeWhile isGroupChar
  digitCount mantissa != 0 && (digitCount mantissa == 1 || mantissa.head? != some '0') &&
    isFraction (word.dropWhile isGroupChar)

/-- Whether a word is a whole number in a base other than ten; it may lack digits. -/
def isBased (word : List Char) : Bool :=
  let fits (isDigit : Char → Bool) (rest : List Char) : Bool :=
    rest.all (fun c => isDigit c || c = '_') && isSeparated isDigit rest
  match word with
  | '0' :: 'x' :: rest => fits isHexDigit rest
  | '0' :: 'o' :: rest => fits isOctalDigit rest
  | '0' :: 'b' :: rest => fits isBinaryDigit rest
  | _ => false

/-- Whether a word is taken for a number. -/
def isNumeral (word : List Char) : Bool :=
  let body := unsigned word
  isBased word || isWhole body || (isGrouped body && isSeparated isHexDigit word) ||
    (isDecimal body && isSeparated Char.isDigit word) ||
    body == ['i', 'n', 'f'] || body == ['n', 'a', 'n']

end ChatIntake.Toml.Numeral
