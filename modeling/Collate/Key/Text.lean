import Collate.Decimal.Shortest
import Collate.Key.Basic
import Collate.Text.Quoted

/-!
# Keys in messages

A key is shown as the list of its values in square brackets, each value with the name of its
kind.
-/

namespace Collate

/-- Doubles in a key have an exponent below `10^(-4)` and from `10^16` on; of two shortest
decimals equally near, the greater one is shown. -/
def Key.layout : Layout :=
  ⟨-4, 15, .up⟩

/-- A double as a key shows it. -/
def Double.shown (d : Double) : List Char :=
  if d.isNaN then "NaN".toList
  else if d.isInfinite then (if d.isNegative then "-inf" else "inf").toList
  else (Key.layout.numeral d).toChars false

/-- What a kind's name encloses. -/
def enclosed (kind : String) (content : List Char) : List Char :=
  kind.toList ++ '(' :: (content ++ [')'])

/-- A value as a key shows it. -/
def Val.shown : Val → List Char
  | .null => "Null".toList
  | .boolean b => enclosed "Boolean" (if b then "true" else "false").toList
  | .long n => enclosed "Long" (signedDecimal n.toInt)
  | .double d => enclosed "Double" d.shown
  | .text s => enclosed "Text" (Text.quoted s)

/-- The values of a key, between brackets and parted by commas. -/
def Key.shown (k : Key) : List Char :=
  '[' :: ((k.values.map Val.shown).intersperse [',', ' ']).flatten ++ [']']

end Collate
