import ChatIntake.Json.Numeral
import ChatIntake.Json.Quoted

/-!
# Compact text

The text of a value without any space between its parts. After the first element
of a list, or field of an object, each further one follows a comma, and the
closing bracket follows the last.
-/

namespace ChatIntake.Json

mutual

/-- The compact text of a value, as characters. -/
def write : Json → List Char
  | null => ['n', 'u', 'l', 'l']
  | bool true => ['t', 'r', 'u', 'e']
  | bool false => ['f', 'a', 'l', 's', 'e']
  | number n => Numeral.write n
  | string s => Quoted.write s
  | array [] => ['[', ']']
  | array (v :: vs) => '[' :: (write v ++ writeElements vs)
  | object [] => ['{', '}']
  | object ((k, v) :: fs) => '{' :: (Quoted.write k ++ ':' :: (write v ++ writeFields fs))

/-- The elements after one that is written already, and the end of their list. -/
def writeElements : List Json → List Char
  | [] => [']']
  | v :: vs => ',' :: (write v ++ writeElements vs)

/-- The fields after one that is written already, and the end of their object. -/
def writeFields : List (String × Json) → List Char
  | [] => ['}']
  | (k, v) :: fs => ',' :: (Quoted.write k ++ ':' :: (write v ++ writeFields fs))

end

/-- The compact text of a value. -/
def compact (value : Json) : String := String.ofList (write value)

end ChatIntake.Json
