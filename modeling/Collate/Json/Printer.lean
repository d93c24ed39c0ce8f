import Collate.Json.Basic

/-!
# Printing JSON

The compact text of a tree: no blanks, members in order, a sign before every exponent.  Quotes,
backslashes and the control characters below the blank are escaped; all other characters stand
for themselves.
-/

namespace Collate.Json

/-- The hexadecimal digit of a number below sixteen, in lower case. -/
def hexDigit (n : Nat) : Char :=
  Nat.digitChar (n % 16)

/-- A character as it stands in a string. -/
def escaped (c : Char) : List Char :=
  if c = '"' then ['\\', '"']
  else if c = '\\' then ['\\', '\\']
  else if c = '\x08' then ['\\', 'b']
  else if c = '\x0c' then ['\\', 'f']
  else if c = '\n' then ['\\', 'n']
  else if c = '\r' then ['\\', 'r']
  else if c = '\t' then ['\\', 't']
  else if c.toNat < 0x20 then
    ['\\', 'u', '0', '0', hexDigit (c.toNat / 16), hexDigit c.toNat]
  else [c]

/-- A text between quotes. -/
def quotedText (s : String) : List Char :=
  '"' :: (s.toList.flatMap escaped ++ ['"'])

/-- A string; one that spells no text is left empty. -/
def stringChars (s : Option String) : List Char :=
  quotedText (s.getD "")

mutual

/-- The text of a tree. -/
def toChars : Json → List Char
  | .null => ['n', 'u', 'l', 'l']
  | .bool true => ['t', 'r', 'u', 'e']
  | .bool false => ['f', 'a', 'l', 's', 'e']
  | .number n => n.toChars true
  | .string s => stringChars s
  | .array [] => ['[', ']']
  | .array (item :: items) => '[' :: (item.toChars ++ itemsChars items)
  | .object [] => ['\x7b', '\x7d']
  | .object ((name, value) :: members) =>
    '\x7b' :: (stringChars name ++ ':' :: (value.toChars ++ membersChars members))

/-- The items behind the first one, up to the closing bracket. -/
def itemsChars : List Json → List Char
  | [] => [']']
  | item :: items => ',' :: (item.toChars ++ itemsChars items)

/-- The members behind the first one, up to the closing brace. -/
def membersChars : List (Option String × Json) → List Char
  | [] => ['\x7d']
  | (name, value) :: members =>
    ',' :: (stringChars name ++ ':' :: (value.toChars ++ membersChars members))

end

/-- The compact text of a tree. -/
def print (j : Json) : String :=
  String.ofList j.toChars

end Collate.Json
