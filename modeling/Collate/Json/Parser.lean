import Collate.Json.Basic

/-!
# Reading JSON

`Json.parse?` takes a JSON text apart.  Blanks are the space, the tab, the line feed and the
carriage return; numbers have no leading zero, no plus sign and digits on both sides of a
point; control characters do not stand in strings; nothing but blanks may follow the value.
Each reader takes what it reads off the front of the characters and gives the rest.
-/

namespace Collate.Json

def isBlank (c : Char) : Bool :=
  c = ' ' || c = '\t' || c = '\n' || c = '\r'

/-- The characters behind leading blanks. -/
def skipBlanks (s : List Char) : List Char :=
  s.dropWhile isBlank

/-! ### Numbers -/

/-- The value of a decimal digit. -/
def digit? (c : Char) : Option (Fin 10) :=
  if '0' ≤ c ∧ c ≤ '9' then some (Digits.last (c.toNat - '0'.toNat)) else none

/-- The digits at the front. -/
def digits : List Char → Digits × List Char
  | [] => ([], [])
  | c :: r =>
    match digit? c with
    | none => ([], c :: r)
    | some d =>
      let (ds, rest) := digits r
      (d :: ds, rest)

/-- The digits at the front, at least one. -/
def someDigits (s : List Char) : Option (Digits × List Char) :=
  match digits s with
  | ([], _) => none
  | (ds, rest) => some (ds, rest)

/-- The digits before the point, without a leading zero save for zero itself. -/
def wholePart (s : List Char) : Option (Digits × List Char) :=
  match someDigits s with
  | some (0 :: _ :: _, _) => none
  | other => other

/-- The digits behind the point, if there is one. -/
def fractionPart : List Char → Option (Digits × List Char)
  | '.' :: r => someDigits r
  | s => some ([], s)

/-- The power of ten behind its letter. -/
def exponentDigits : List Char → Option (Int × List Char)
  | '-' :: r => (someDigits r).map fun (ds, rest) => (-(ds.value : Int), rest)
  | '+' :: r => (someDigits r).map fun (ds, rest) => ((ds.value : Int), rest)
  | r => (someDigits r).map fun (ds, rest) => ((ds.value : Int), rest)

/-- The power of ten, if one is written. -/
def exponentPart : List Char → Option (Option Int × List Char)
  | 'e' :: r | 'E' :: r => (exponentDigits r).map fun (e, rest) => (some e, rest)
  | s => some (none, s)

/-- A number without its sign. -/
def unsigned (negative : Bool) (s : List Char) : Option (Numeral × List Char) := do
  let (whole, s) ← wholePart s
  let (fraction, s) ← fractionPart s
  let (exponent, s) ← exponentPart s
  return (⟨negative, whole, fraction, exponent⟩, s)

/-- A number. -/
def numeral : List Char → Option (Numeral × List Char)
  | '-' :: r => unsigned true r
  | s => unsigned false s

/-! ### Strings -/

/-- The value of a hexadecimal digit. -/
def hexValue? (c : Char) : Option Nat :=
  if '0' ≤ c ∧ c ≤ '9' then some (c.toNat - '0'.toNat)
  else if 'a' ≤ c ∧ c ≤ 'f' then some (c.toNat - 'a'.toNat + 10)
  else if 'A' ≤ c ∧ c ≤ 'F' then some (c.toNat - 'A'.toNat + 10)
  else none

/-- The code unit of four hexadecimal digits. -/
def codeUnit? (a b c d : Char) : Option Nat := do
  return (((← hexValue? a) * 16 + (← hexValue? b)) * 16 + (← hexValue? c)) * 16
    + (← hexValue? d)

/-- The character that a letter stands for behind a backslash. -/
def escape? (c : Char) : Option Char :=
  if c = '"' then some '"'
  else if c = '\\' then some '\\'
  else if c = '/' then some '/'
  else if c = 'b' then some '\x08'
  else if c = 'f' then some '\x0c'
  else if c = 'n' then some '\n'
  else if c = 'r' then some '\r'
  else if c = 't' then some '\t'
  else none

/-- A part of a string: a character, or half of a surrogate pair. -/
inductive Piece where
  | char (c : Char)
  | surrogate (unit : Nat)
  deriving DecidableEq, Repr

/-- What a code unit stands for. -/
def pieceOf (unit : Nat) : Piece :=
  if 0xd800 ≤ unit ∧ unit ≤ 0xdfff then .surrogate unit else .char (Char.ofNat unit)

/-- The parts of a string up to its closing quote. -/
def pieces : List Char → Option (List Piece × List Char)
  | [] => none
  | '"' :: r => some ([], r)
  | '\\' :: 'u' :: a :: b :: c :: d :: r => do
    let unit ← codeUnit? a b c d
    let (ps, rest) ← pieces r
    return (pieceOf unit :: ps, rest)
  | '\\' :: c :: r => do
    let c ← escape? c
    let (ps, rest) ← pieces r
    return (.char c :: ps, rest)
  | c :: r =>
    if c.toNat < 0x20 ∨ c = '\\' then none
    else do
      let (ps, rest) ← pieces r
      return (.char c :: ps, rest)

/-- The character of a surrogate pair. -/
def pairedChar (high low : Nat) : Char :=
  Char.ofNat (0x10000 + (high - 0xd800) * 0x400 + (low - 0xdc00))

/-- The characters that pieces spell, if every surrogate has its partner. -/
def spell : List Piece → Option (List Char)
  | [] => some []
  | .char c :: ps => (spell ps).map (c :: ·)
  | .surrogate high :: .surrogate low :: ps =>
    if high < 0xdc00 ∧ 0xdc00 ≤ low then (spell ps).map (pairedChar high low :: ·) else none
  | .surrogate _ :: _ => none

/-- A string behind its opening quote. -/
def stringBody (s : List Char) : Option (Option String × List Char) :=
  (pieces s).map fun (ps, rest) => ((spell ps).map String.ofList, rest)

/-! ### Values -/

mutual

/-- A value, blanks before it included. -/
def value : Nat → List Char → Option (Json × List Char)
  | 0, _ => none
  | fuel + 1, s =>
    match skipBlanks s with
    | 'n' :: 'u' :: 'l' :: 'l' :: r => some (.null, r)
    | 't' :: 'r' :: 'u' :: 'e' :: r => some (.bool true, r)
    | 'f' :: 'a' :: 'l' :: 's' :: 'e' :: r => some (.bool false, r)
    | '"' :: r => (stringBody r).map fun (text, rest) => (.string text, rest)
    | '[' :: r =>
      match skipBlanks r with
      | ']' :: r => some (.array [], r)
      | r => (items fuel r).map fun (xs, rest) => (.array xs, rest)
    | '\x7b' :: r =>
      match skipBlanks r with
      | '\x7d' :: r => some (.object [], r)
      | r => (members fuel r).map fun (ms, rest) => (.object ms, rest)
    | r => (numeral r).map fun (n, rest) => (.number n, rest)

/-- The items of an array, at least one, up to the closing bracket. -/
def items : Nat → List Char → Option (List Json × List Char)
  | 0, _ => none
  | fuel + 1, s =>
    match value fuel s with
    | none => none
    | some (x, r) =>
      match skipBlanks r with
      | ']' :: r => some ([x], r)
      | ',' :: r => (items fuel r).map fun (xs, rest) => (x :: xs, rest)
      | _ => none

/-- The members of an object, at least one, up to the closing brace. -/
def members : Nat → List Char → Option (List (Option String × Json) × List Char)
  | 0, _ => none
  | fuel + 1, s =>
    match skipBlanks s with
    | '"' :: r =>
      match stringBody r with
      | none => none
      | some (name, r) =>
        match skipBlanks r with
        | ':' :: r =>
          match value fuel r with
          | none => none
          | some (x, r) =>
            match skipBlanks r with
            | '\x7d' :: r => some ([(name, x)], r)
            | ',' :: r => (members fuel r).map fun (ms, rest) => ((name, x) :: ms, rest)
            | _ => none
        | _ => none
    | _ => none

end

/-- The tree of a JSON text.  Every value and every list of items takes a character at least,
so twice the length of the text bounds how deep the readers call each other. -/
def parse? (s : String) : Option Json :=
  match value (2 * s.length + 2) s.toList with
  | some (j, rest) => if (skipBlanks rest).isEmpty then some j else none
  | none => none

end Collate.Json
