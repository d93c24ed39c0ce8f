import Collate.Decimal.Shortest
import Collate.Json.Number
import Collate.Json.Parser
import Collate.Json.Printer

/-!
# Codecs

A `Codec` gives the values of a type a form in JSON and reads that form back.  Integers are
read only from numbers written as integers, doubles from any number.

The texts are the business of a `JsonLibrary`, which writes trees as texts and reads texts as trees.
`Json.library` is the one that writes compact texts.
-/

namespace Collate

/-- The operations of a library for JSON. -/
structure JsonLibrary where
  /-- The text of a tree. -/
  print : Json → String
  /-- The tree of a text, if it is the text of one. -/
  parse? : String → Option Json

/-- The library that writes compact texts, and reads whatever spells a tree. -/
def Json.library : JsonLibrary :=
  ⟨print, parse?⟩

/-- A form of a type in JSON. -/
structure Codec (α : Type) where
  encode : α → Json
  decode : Json → Option α

namespace Codec

def bool : Codec Bool where
  encode b := .bool b
  decode
    | .bool b => some b
    | _ => none

def text : Codec String where
  encode s := .text s
  decode
    | .string s => s
    | _ => none

/-- What a number in JSON stands for. -/
def number? : Json → Option Number
  | .number n => Number.read n
  | _ => none

/-- Integers from `0` to `2^64 - 1`. -/
def natural : Codec UInt64 where
  encode n := .int n.toNat
  decode j :=
    match number? j with
    | some (.natural n) => some n
    | _ => none

/-- Integers from `0` to `2^32 - 1`. -/
def smallNatural : Codec UInt32 where
  encode n := .int n.toNat
  decode j :=
    match number? j with
    | some (.natural n) => if n.toNat < UInt32.size then some n.toUInt32 else none
    | _ => none

/-- Integers from `-2^63` to `2^63 - 1`. -/
def integer : Codec Int64 where
  encode n := .int n.toInt
  decode j :=
    match number? j with
    | some (.natural n) => if n.toNat < 0x8000000000000000 then some n.toInt64 else none
    | some (.negative n) => some n
    | _ => none

/-- Doubles in JSON have an exponent below `10^(-5)` and from `10^16` on; of two shortest
decimals equally near, the one that ends in an even digit is written. -/
def layout : Layout :=
  ⟨-5, 15, .even⟩

/-- Doubles.  An infinity or a NaN has no number and is written as null, which is not read
back. -/
def double : Codec Double where
  encode d :=
    if d.isNaN || d.isInfinite then .null else .number (layout.numeral d)
  decode j :=
    match number? j with
    | some (.natural n) => some (Double.ofNat n.toNat)
    | some (.negative n) => some (Double.ofNat n.toInt.natAbs).negate
    | some (.double d) => some d
    | none => none

variable {α : Type}

def list (c : Codec α) : Codec (List α) where
  encode xs := .array (xs.map c.encode)
  decode
    | .array items => items.mapM c.decode
    | _ => none

/-- A value that may be missing, null standing for its absence. -/
def nullable (c : Codec α) : Codec (Option α) where
  encode
    | none => .null
    | some a => c.encode a
  decode
    | .null => some none
    | j => (c.decode j).map some

/-- The form of `α` given by that of `β`. -/
def via {β : Type} (c : Codec β) (forth : α → β) (back : β → α) : Codec α where
  encode a := c.encode (forth a)
  decode j := (c.decode j).map back

/-- Reads a member that has to be there. -/
def required (c : Codec α) (member : Option Json) : Option α :=
  member.bind c.decode

/-- Reads a member that may be left out. -/
def orElse (c : Codec α) (default : α) : Option Json → Option α
  | none => some default
  | some j => c.decode j

/-- The text that a library gives a value. -/
def writeBy (library : JsonLibrary) (c : Codec α) (a : α) : String :=
  library.print (c.encode a)

/-- The value of a text that a library reads. -/
def readBy? (library : JsonLibrary) (c : Codec α) (s : String) : Option α :=
  (library.parse? s).bind c.decode

/-- The text of a value. -/
def write (c : Codec α) (a : α) : String :=
  c.writeBy Json.library a

/-- The value of a text. -/
def read? (c : Codec α) (s : String) : Option α :=
  c.readBy? Json.library s

end Codec

end Collate
