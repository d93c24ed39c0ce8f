import Collate.Text.DefaultIgnorable
import Collate.Text.GraphemeExtend
import Collate.Text.Printable

/-!
# Quoted texts

A text is quoted between double quotes so that it can be read in a message.  A quote and a
backslash get a backslash before them, the control characters with a name of their own get
their letter, and every other character that leaves no mark, is left out in display, or is drawn
on the one before it, is written as its code point in hexadecimal.  The halfwidth sound marks,
which are drawn beside the character before them and not on it, stay as they are, and so does
the apostrophe.
-/

namespace Collate.Text

/-- A number in hexadecimal, in lower-case digits and without leading zeros. -/
def hexadecimal (n : Nat) : List Char :=
  Nat.toDigits 16 n

/-- Whether a character is one of the two halfwidth katakana sound marks: they extend a grapheme
but have a place of their own on the line. -/
def isHalfwidthSoundMark (c : Char) : Bool :=
  c.toNat = 0xff9e || c.toNat = 0xff9f

/-- Whether a character can be read where it stands alone, and so needs no code point. -/
def isLegible (c : Char) : Bool :=
  isPrintable c && !isDefaultIgnorable c && (!extendsGrapheme c || isHalfwidthSoundMark c)

/-- A character as it stands between quotes. -/
def quotedChar (c : Char) : List Char :=
  if c = '"' then ['\\', '"']
  else if c = '\\' then ['\\', '\\']
  else if c = '\t' then ['\\', 't']
  else if c = '\n' then ['\\', 'n']
  else if c = '\r' then ['\\', 'r']
  else if c.toNat = 0 then ['\\', '0']
  else if isLegible c then [c]
  else ['\\', 'u', '\x7b'] ++ hexadecimal c.toNat ++ ['\x7d']

/-- A text between double quotes. -/
def quoted (s : String) : List Char :=
  '"' :: (s.toList.flatMap quotedChar ++ ['"'])

end Collate.Text
