import Collate.Decimal.Numeral

/-!
# JSON trees

A `Json` is a JSON text taken apart.  Numbers stay as they are written, the members of an
object stay in order with repetitions, and a string is the text it spells: nothing, if it
holds half of a surrogate pair.
-/

namespace Collate

/-- A JSON text taken apart. -/
inductive Json where
  | null
  | bool (b : Bool)
  | number (n : Numeral)
  /-- A string with the text it spells, if it spells one. -/
  | string (text : Option String)
  | array (items : List Json)
  | object (members : List (Option String × Json))
  deriving Inhabited, Repr

namespace Json

/-- The string that spells a text. -/
def text (s : String) : Json :=
  .string (some s)

/-- The number of an integer. -/
def int (n : Int) : Json :=
  .number (.ofInt n)

/-- The object with the given members. -/
def record (members : List (String × Json)) : Json :=
  .object (members.map fun (name, value) => (some name, value))

/-- The members of an object by the given names, or of an array by position, as a reader that is
derived for a record finds its parts: for each name its value, if it has one.  Members of other
names are passed over.  Nothing if a name occurs twice, if a name spells no text, or if an array is
longer than the list of names. -/
def members? (names : List String) : Json → Option (List (Option Json))
  | .object members =>
    if members.all (·.1.isSome) then
      names.mapM fun name =>
        match members.filter (·.1 == some name) with
        | [] => some none
        | [(_, value)] => some (some value)
        | _ => none
    else none
  | .array items =>
    if items.length ≤ names.length then
      some (items.map some ++ List.replicate (names.length - items.length) none)
    else none
  | _ => none

end Json

end Collate
