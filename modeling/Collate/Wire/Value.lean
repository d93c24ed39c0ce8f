import Collate.Key.Basic
import Collate.Accumulator
import Collate.Wire.Codec

/-!
# Values and accumulators in JSON

A value or an accumulator is an object with one member, named for its kind; the null value,
which holds nothing, is the string of its name.  A key is the array of its values.
-/

namespace Collate

/-- An object with one member. -/
def Json.tagged (kind : String) (content : Json) : Json :=
  .record [(kind, content)]

def Val.codec : Codec Val where
  encode
    | .null => .text "Null"
    | .boolean b => .tagged "Boolean" (Codec.bool.encode b)
    | .long n => .tagged "Long" (Codec.integer.encode n)
    | .double d => .tagged "Double" (Codec.double.encode d)
    | .text s => .tagged "Text" (Codec.text.encode s)
  decode
    | .string (some "Null") => some .null
    | .object [(some "Null", .null)] => some .null
    | .object [(some "Boolean", j)] => (Codec.bool.decode j).map .boolean
    | .object [(some "Long", j)] => (Codec.integer.decode j).map .long
    | .object [(some "Double", j)] => (Codec.double.decode j).map .double
    | .object [(some "Text", j)] => (Codec.text.decode j).map .text
    | _ => none

def Accumulator.codec : Codec Accumulator where
  encode
    | .value v => .tagged "Value" (Val.codec.encode v)
    | .count n => .tagged "Count" (Codec.natural.encode n)
    | .sum d => .tagged "Sum" (Codec.double.encode d)
    | .min v => .tagged "Min" (Val.codec.encode v)
    | .max v => .tagged "Max" (Val.codec.encode v)
  decode
    | .object [(some "Value", j)] => (Val.codec.decode j).map .value
    | .object [(some "Count", j)] => (Codec.natural.decode j).map .count
    | .object [(some "Sum", j)] => (Codec.double.decode j).map .sum
    | .object [(some "Min", j)] => (Val.codec.decode j).map .min
    | .object [(some "Max", j)] => (Val.codec.decode j).map .max
    | _ => none

def Key.codec : Codec Key :=
  Val.codec.list.via Key.values Key.mk

end Collate
