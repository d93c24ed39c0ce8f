import Collate.Double.Basic

/-!
# Values

A `Val` is a single comparable value: a part of a group key, or what an accumulator comes
to.  Values of different kinds are ordered by kind, values of one kind by what they hold:
doubles by the total order of their format, texts by their UTF-8 bytes.  `Val.digest` is the
byte string by which a hash table tells values apart.
-/

namespace Collate

/-- A single value. -/
inductive Val where
  | null
  | boolean (b : Bool)
  | long (n : Int64)
  | double (d : Double)
  | text (s : String)
  deriving DecidableEq, Inhabited, Repr

/-- The bytes of a text in UTF-8. -/
def utf8Bytes (s : String) : List UInt8 :=
  s.toByteArray.data.toList

/-- The lowest `n` bytes of a number, least first. -/
def littleEndian : Nat → Nat → List UInt8
  | 0, _ => []
  | n + 1, x => UInt8.ofNat x :: littleEndian n (x / 256)

namespace Val

/-- The place of a kind among the kinds. -/
def rank : Val → Nat
  | .null => 0
  | .boolean _ => 1
  | .long _ => 2
  | .double _ => 3
  | .text _ => 4

def isNull : Val → Bool
  | .null => true
  | _ => false

/-- Within a kind by content, across kinds by rank. -/
def order : Val → Val → Ordering
  | .boolean a, .boolean b => compare a b
  | .long a, .long b => compare a b
  | .double a, .double b => compare a b
  | .text a, .text b => compare (utf8Bytes a) (utf8Bytes b)
  | a, b => compare a.rank b.rank

instance : Ord Val := ⟨order⟩

/-- Values are equal if neither comes before the other. -/
def equal (a b : Val) : Bool :=
  order a b == .eq

/-- The comparison of values as one that may be without an answer. -/
def partialOrder? (a b : Val) : Option Ordering :=
  some (order a b)

/-- Whether `a` comes strictly before `b`. -/
def precedes (a b : Val) : Bool :=
  order a b == .lt

/-- The rank of a value followed by its content: one byte for a boolean, eight for a number,
and the bytes of a text closed by a byte that no text holds. -/
def digest : Val → List UInt8
  | .null => [0]
  | .boolean b => [1, if b then 1 else 0]
  | .long n => 2 :: littleEndian 8 n.toUInt64.toNat
  | .double d => 3 :: littleEndian 8 d.bits.toNat
  | .text s => 4 :: (utf8Bytes s ++ [0xff])

end Val

end Collate
