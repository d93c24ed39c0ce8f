/-!
# Decimal numerals

A `Numeral` is a written number taken apart: its sign, its digits before and after the point,
and its power of ten if one is written.  `Digits.value` reads digits as a natural number and
`Digits.ofNat` writes a natural number without leading zeros.
-/

namespace Collate

/-- Decimal digits, most significant first. -/
abbrev Digits := List (Fin 10)

namespace Digits

/-- The natural number that digits spell. -/
def value (ds : Digits) : Nat :=
  ds.foldl (fun n d => 10 * n + d.val) 0

theorem value_append_singleton (ds : Digits) (d : Fin 10) :
  value (ds ++ [d]) = 10 * value ds + d.val
  := by
  simp [value]

/-- The last digit of a natural number. -/
def last (n : Nat) : Fin 10 :=
  Fin.ofNat 10 n

@[simp]
theorem val_last (n : Nat) :
  (last n).val = n % 10
  := rfl

/-- The digits of a natural number, without leading zeros save for zero itself. -/
def ofNat (n : Nat) : Digits :=
  if n < 10 then [last n] else ofNat (n / 10) ++ [last n]
termination_by n
decreasing_by omega

/-- A natural number is what its digits spell. -/
@[simp]
theorem value_ofNat (n : Nat) :
  value (ofNat n) = n
  := by
  induction n using Nat.strongRecOn with
  | _ n ih =>
    unfold ofNat
    split
    · simp [value]
      omega
    · rw [value_append_singleton, ih (n / 10) (by omega)]
      simp
      omega

/-- A row of zeros. -/
def zeros (n : Nat) : Digits :=
  List.replicate n 0

/-- The digits without the zeros at their end. -/
def trimEnd (ds : Digits) : Digits :=
  (ds.reverse.dropWhile (· = 0)).reverse

def char (d : Fin 10) : Char :=
  Char.ofNat ('0'.toNat + d.val)

def toChars (ds : Digits) : List Char :=
  ds.map char

end Digits

/-- A natural number in decimal. -/
def decimal (n : Nat) : List Char :=
  (Digits.ofNat n).toChars

/-- An integer in decimal. -/
def signedDecimal : Int → List Char
  | .ofNat n => decimal n
  | .negSucc n => '-' :: decimal (n + 1)

/-- A written number. -/
structure Numeral where
  negative : Bool
  /-- The digits before the point. -/
  whole : Digits
  /-- The digits after the point; without any there is no point. -/
  fraction : Digits
  /-- The power of ten, if one is written. -/
  exponent : Option Int
  deriving DecidableEq, Inhabited, Repr

namespace Numeral

/-- The numeral of an integer. -/
def ofInt (n : Int) : Numeral :=
  ⟨decide (n < 0), Digits.ofNat n.natAbs, [], none⟩

/-- The text of a power of ten, a positive one with a plus sign if `plus` asks for it. -/
def exponentChars (plus : Bool) (e : Int) : List Char :=
  'e' :: ((if plus && 0 ≤ e then ['+'] else []) ++ signedDecimal e)

/-- The text of a numeral. -/
def toChars (plus : Bool) (n : Numeral) : List Char :=
  (if n.negative then ['-'] else [])
    ++ n.whole.toChars
    ++ (if n.fraction.isEmpty then [] else '.' :: n.fraction.toChars)
    ++ (n.exponent.map (exponentChars plus)).getD []

end Numeral

end Collate
