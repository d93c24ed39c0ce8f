import Mathlib.Data.Fintype.Basic
import Mathlib.Data.List.Basic
import Mathlib.Tactic.FinCases
import Collate.Json.Parser
import Collate.Json.Printer

/-!
# Reading what was printed

The compact text of a tree is read back as the tree, provided that the numbers in it are integers
and that its strings spell texts.  Each reader takes the text of what it reads off the front and
leaves what is behind it: for digits that must not begin with a digit, and for numbers not with a
point or an exponent either, which what follows a value in a text never does.
-/

namespace Collate

namespace Digits

/-- The digits of a natural number begin with a zero for zero alone. -/
theorem ofNat_cases (n : Nat) :
  ofNat n = [0] ∨ ∃ d ds, d ≠ 0 ∧ ofNat n = d :: ds
  := by
  induction n using Nat.strongRecOn with
  | _ n ih =>
      rw [ofNat]
      split
      case isTrue h =>
        by_cases hn : n = 0
        · left
          rw [hn]
          rfl
        · right
          refine ⟨last n, [], ?_, rfl⟩
          rw [ne_eq, Fin.ext_iff, val_last, Nat.mod_eq_of_lt h]
          exact hn
      case isFalse h =>
        right
        obtain hzero | ⟨d, ds, hd, hds⟩ := ih (n / 10) (by omega)
        · have hvalue := value_ofNat (n / 10)
          rw [hzero] at hvalue
          have : value [0] = 0 := rfl
          omega
        · exact ⟨d, ds ++ [last n], hd, by rw [hds, List.cons_append]⟩

/-- Every number has a digit. -/
theorem ofNat_ne_nil (n : Nat) :
  ofNat n ≠ []
  := by
  obtain h | ⟨d, ds, -, h⟩ := ofNat_cases n
  all_goals
    rw [h]
    apply List.cons_ne_nil

end Digits

namespace Json

/-- A tree whose numbers are integers and whose strings spell texts. -/
inductive Plain : Json → Prop where
  | null : Plain .null
  | bool (b : Bool) : Plain (.bool b)
  | int (n : Int) : Plain (.int n)
  | text (s : String) : Plain (.text s)
  | array {items : List Json} (h : ∀ item ∈ items, Plain item) : Plain (.array items)
  | record {members : List (String × Json)} (h : ∀ member ∈ members, Plain member.2) :
    Plain (.record members)

/-- What may be behind a value: nothing, another value, or the end of what holds the value. -/
def Ends (rest : List Char) : Prop :=
  ∀ c r, rest = c :: r → c = ',' ∨ c = ']' ∨ c = '\x7d'

theorem ends_nil :
  Ends []
  := nofun

/-! ### Numbers -/

/-- A written digit is read back. -/
theorem digit?_char (d : Fin 10) :
  digit? (Digits.char d) = some d
  := by
  revert d
  decide

/-- Digits are read up to what is no digit. -/
theorem digits_toChars (ds : Digits) {rest : List Char} (h : Ends rest) :
  digits (ds.toChars ++ rest) = (ds, rest)
  := by
  induction ds with
  | nil =>
      cases rest with
      | nil => rfl
      | cons c r =>
          obtain rfl | rfl | rfl := h c r rfl
          all_goals rfl
  | cons d ds ih =>
      rw [Digits.toChars, List.map_cons, List.cons_append, digits, digit?_char]
      simp only
      rw [← Digits.toChars, ih]

/-- Written digits are read back up to the first character that is none. -/
theorem someDigits_toChars {ds : Digits} (hds : ds ≠ []) {rest : List Char} (h : Ends rest) :
  someDigits (ds.toChars ++ rest) = some (ds, rest)
  := by
  rw [someDigits, digits_toChars ds h]
  cases ds with
  | nil => contradiction
  | cons d ds => rfl

/-- The digits of a natural number are read as the part before the point. -/
theorem wholePart_ofNat (n : Nat) {rest : List Char} (h : Ends rest) :
  wholePart ((Digits.ofNat n).toChars ++ rest) = some (Digits.ofNat n, rest)
  := by
  rw [wholePart, someDigits_toChars (Digits.ofNat_ne_nil n) h]
  obtain hzero | ⟨d, ds, hd, hds⟩ := Digits.ofNat_cases n
  · rw [hzero]
    rfl
  · rw [hds]
    split
    next heq =>
      simp only [Option.some.injEq, Prod.mk.injEq, List.cons.injEq] at heq
      exact absurd heq.1.1 hd
    next => rfl

/-- Neither a point nor an exponent follows a value. -/
theorem unsigned_ofNat (negative : Bool) (n : Nat) {rest : List Char} (h : Ends rest) :
  unsigned negative ((Digits.ofNat n).toChars ++ rest)
    = some (⟨negative, Digits.ofNat n, [], none⟩, rest)
  := by
  have hfraction : fractionPart rest = some ([], rest) := by
    cases rest with
    | nil => rfl
    | cons c r =>
        obtain rfl | rfl | rfl := h c r rfl
        all_goals rfl
  have hexponent : exponentPart rest = some (none, rest) := by
    cases rest with
    | nil => rfl
    | cons c r =>
        obtain rfl | rfl | rfl := h c r rfl
        all_goals rfl
  rw [unsigned, wholePart_ofNat n h]
  simp only [Option.bind_eq_bind, Option.bind_some, hfraction, hexponent]
  rfl

/-- A number begins with its sign or with a digit, and so is not taken for anything else. -/
theorem value_of_digit (fuel : Nat) (d : Fin 10) (r : List Char) :
  value (fuel + 1) (Digits.char d :: r)
    = (unsigned false (Digits.char d :: r)).map fun (n, rest) => (.number n, rest)
  := by
  fin_cases d <;> rfl

theorem toChars_int (n : Int) :
  (Json.int n).toChars
    = (if n < 0 then ['-'] else []) ++ (Digits.ofNat n.natAbs).toChars
  := by
  simp [Json.int, toChars, Numeral.toChars, Numeral.ofInt]

/-- A written integer is read back. -/
theorem value_int (fuel : Nat) (n : Int) {rest : List Char} (h : Ends rest) :
  value (fuel + 1) ((Json.int n).toChars ++ rest) = some (.int n, rest)
  := by
  have hread := unsigned_ofNat (decide (n < 0)) n.natAbs h
  rw [toChars_int]
  by_cases hn : n < 0
  · rw [if_pos hn, List.append_assoc]
    have hvalue : value (fuel + 1) ('-' :: ((Digits.ofNat n.natAbs).toChars ++ rest))
        = (unsigned true ((Digits.ofNat n.natAbs).toChars ++ rest)).map fun (n, rest) =>
          (.number n, rest) := rfl
    rw [List.singleton_append, hvalue]
    rw [decide_eq_true hn] at hread
    rw [hread, Json.int, Numeral.ofInt, decide_eq_true hn]
    rfl
  · rw [if_neg hn, List.nil_append]
    rw [decide_eq_false hn] at hread
    obtain ⟨d, ds, hds⟩ := List.exists_cons_of_ne_nil (Digits.ofNat_ne_nil n.natAbs)
    rw [Json.int, Numeral.ofInt, decide_eq_false hn]
    rw [hds, Digits.toChars, List.map_cons, List.cons_append] at hread ⊢
    rw [value_of_digit, hread]
    rfl

/-! ### Strings -/

section

variable {r rest : List Char} {ps : List Piece}

/-- A plain character of a quoted text is read as itself. -/
theorem pieces_cons {c : Char} (hquote : c ≠ '"') (hbackslash : c ≠ '\\')
    (hcontrol : ¬ c.toNat < 0x20) (h : pieces r = some (ps, rest)) :
  pieces (c :: r) = some (.char c :: ps, rest)
  := by
  have hallowed : ¬ (c.toNat < 0x20 ∨ c = '\\') := not_or.mpr ⟨hcontrol, hbackslash⟩
  rw [pieces, if_neg hallowed, h]
  · rfl
  · exact hquote
  · intro _ _ _ _ _ hc
    exact absurd hc hbackslash
  · intro _ _ hc
    exact absurd hc hbackslash

/-- An escaped character of a quoted text is read as the character it stands for. -/
theorem pieces_escape {c d : Char} (hunit : c ≠ 'u') (hescape : escape? c = some d)
    (h : pieces r = some (ps, rest)) :
  pieces ('\\' :: c :: r) = some (.char d :: ps, rest)
  := by
  rw [pieces, hescape, h]
  · rfl
  · intro _ _ _ _ _ hc
    exact absurd hc hunit

/-- The four hexadecimal digits of a control character are read back as its code. -/
theorem codeUnit?_hexDigit :
  ∀ n < 0x20, codeUnit? '0' '0' (hexDigit (n / 16)) (hexDigit n) = some n
  := by
  decide

/-- An escaped control character is read back. -/
theorem pieces_control {c : Char} (hcontrol : c.toNat < 0x20) (h : pieces r = some (ps, rest)) :
  pieces ('\\' :: 'u' :: '0' :: '0' :: hexDigit (c.toNat / 16) :: hexDigit c.toNat :: r)
    = some (.char c :: ps, rest)
  := by
  have hpiece : pieceOf c.toNat = .char c := by
    rw [pieceOf, if_neg (by omega), Char.ofNat_toNat]
  rw [pieces, codeUnit?_hexDigit c.toNat hcontrol, h]
  simp [hpiece]

/-- A character stands for itself, behind a backslash by a letter, or by its code unit. -/
theorem escaped_cases (c : Char) :
  (c ≠ '"' ∧ c ≠ '\\' ∧ ¬ c.toNat < 0x20 ∧ escaped c = [c])
    ∨ (∃ letter, letter ≠ 'u' ∧ escape? letter = some c ∧ escaped c = ['\\', letter])
    ∨ c.toNat < 0x20
      ∧ escaped c = ['\\', 'u', '0', '0', hexDigit (c.toNat / 16), hexDigit c.toNat]
  := by
  rw [escaped]
  split_ifs with hquote hbackslash hbackspace hfeed hline hreturn htab hcontrol
  · exact .inr (.inl ⟨'"', by decide, by rw [hquote]; rfl, rfl⟩)
  · exact .inr (.inl ⟨'\\', by decide, by rw [hbackslash]; rfl, rfl⟩)
  · exact .inr (.inl ⟨'b', by decide, by rw [hbackspace]; rfl, rfl⟩)
  · exact .inr (.inl ⟨'f', by decide, by rw [hfeed]; rfl, rfl⟩)
  · exact .inr (.inl ⟨'n', by decide, by rw [hline]; rfl, rfl⟩)
  · exact .inr (.inl ⟨'r', by decide, by rw [hreturn]; rfl, rfl⟩)
  · exact .inr (.inl ⟨'t', by decide, by rw [htab]; rfl, rfl⟩)
  · exact .inr (.inr ⟨hcontrol, rfl⟩)
  · exact .inl ⟨hquote, hbackslash, hcontrol, rfl⟩

/-- What stands for a character in a string is read as the character. -/
theorem pieces_escaped (c : Char) (h : pieces r = some (ps, rest)) :
  pieces (escaped c ++ r) = some (.char c :: ps, rest)
  := by
  obtain ⟨hquote, hbackslash, hcontrol, hc⟩ | ⟨letter, hunit, hescape, hc⟩ | ⟨hcontrol, hc⟩ :=
    escaped_cases c
  · rw [hc]
    apply pieces_cons hquote hbackslash hcontrol h
  · rw [hc]
    apply pieces_escape hunit hescape h
  · rw [hc]
    apply pieces_control hcontrol h

end

/-- The escaped characters of a text are read back, up to the closing quote. -/
theorem pieces_flatMap_escaped (cs rest : List Char) :
  pieces (cs.flatMap escaped ++ '"' :: rest) = some (cs.map .char, rest)
  := by
  induction cs with
  | nil => rfl
  | cons c cs ih =>
      rw [List.flatMap_cons, List.append_assoc, List.map_cons]
      apply pieces_escaped c ih

/-- Characters without surrogates spell themselves. -/
theorem spell_map_char (cs : List Char) :
  spell (cs.map .char) = some cs
  := by
  induction cs with
  | nil => rfl
  | cons c cs ih => rw [List.map_cons, spell, ih, Option.map_some]

/-- A text is what its string spells. -/
theorem stringBody_text (s : String) (rest : List Char) :
  stringBody (s.toList.flatMap escaped ++ '"' :: rest) = some (some s, rest)
  := by
  rw [stringBody, pieces_flatMap_escaped, Option.map_some]
  simp only [spell_map_char, Option.map_some, String.ofList_toList]

theorem quotedText_append (s : String) (rest : List Char) :
  quotedText s ++ rest = '"' :: (s.toList.flatMap escaped ++ '"' :: rest)
  := by
  rw [quotedText, List.cons_append, List.append_assoc, List.singleton_append]

/-! ### Values -/

/-- A tree whose text is read back wherever it stands, with fuel for twice its length. -/
def ReadsBack (j : Json) : Prop :=
  ∀ fuel rest, 2 * j.toChars.length ≤ fuel → Ends rest →
    value fuel (j.toChars ++ rest) = some (j, rest)

/-- Characters that begin with one that is no blank and closes nothing. -/
def Begins (s : List Char) : Prop :=
  ∃ c r, s = c :: r ∧ isBlank c = false ∧ c ≠ ']' ∧ c ≠ '\x7d'

/-- A digit is neither a blank nor a closing bracket. -/
theorem isBlank_char (d : Fin 10) :
  isBlank (Digits.char d) = false ∧ Digits.char d ≠ ']' ∧ Digits.char d ≠ '\x7d'
  := by
  revert d
  decide

/-- The text of a value begins it. -/
theorem Plain.begins {j : Json} (plain : j.Plain) (rest : List Char) :
  Begins (j.toChars ++ rest)
  := by
  cases plain with
  | null => exact ⟨'n', _, rfl, by decide⟩
  | bool b =>
      cases b with
      | false => exact ⟨'f', _, rfl, by decide⟩
      | true => exact ⟨'t', _, rfl, by decide⟩
  | int n =>
      rw [toChars_int]
      split
      · exact ⟨'-', _, rfl, by decide⟩
      · obtain ⟨d, ds, hds⟩ := List.exists_cons_of_ne_nil (Digits.ofNat_ne_nil n.natAbs)
        rw [hds]
        exact ⟨Digits.char d, _, rfl, isBlank_char d⟩
  | text s => exact ⟨'"', _, rfl, by decide⟩
  | @array items _ =>
      cases items with
      | nil => exact ⟨'[', _, rfl, by decide⟩
      | cons item items => exact ⟨'[', _, rfl, by decide⟩
  | @record members _ =>
      cases members with
      | nil => exact ⟨'\x7b', _, rfl, by decide⟩
      | cons member members => exact ⟨'\x7b', _, rfl, by decide⟩

/-- There are no blanks to skip before a character that is none. -/
theorem skipBlanks_cons {c : Char} (h : isBlank c = false) (r : List Char) :
  skipBlanks (c :: r) = c :: r
  := by
  rw [skipBlanks, List.dropWhile_cons_of_neg (by simp [h])]

/-- An opening bracket starts the items of an array. -/
theorem value_array {s : List Char} (begins : Begins s) (fuel : Nat) :
  value (fuel + 1) ('[' :: s) = (items fuel s).map fun (xs, rest) => (.array xs, rest)
  := by
  obtain ⟨c, r, rfl, hblank, hbracket, -⟩ := begins
  rw [value, skipBlanks_cons (by decide)]
  simp only [skipBlanks_cons hblank]
  split
  next heq => exact absurd (List.cons.inj heq).1 hbracket
  next => rfl

/-- An opening brace starts the members of an object. -/
theorem value_object {s : List Char} (begins : Begins s) (fuel : Nat) :
  value (fuel + 1) ('\x7b' :: s) = (members fuel s).map fun (ms, rest) => (.object ms, rest)
  := by
  obtain ⟨c, r, rfl, hblank, -, hbrace⟩ := begins
  rw [value, skipBlanks_cons (by decide)]
  simp only [skipBlanks_cons hblank]
  split
  next heq => exact absurd (List.cons.inj heq).1 hbrace
  next => rfl

/-- A written text is read back. -/
theorem value_text (fuel : Nat) (s : String) (rest : List Char) :
  value (fuel + 1) ((Json.text s).toChars ++ rest) = some (.text s, rest)
  := by
  rw [Json.text, toChars, stringChars, Option.getD_some, quotedText_append, value,
    skipBlanks_cons (by decide)]
  simp only [stringBody_text]
  rfl

theorem ends_comma (r : List Char) :
  Ends (',' :: r)
  := by
  rintro c r' ⟨⟩
  exact .inl rfl

theorem ends_bracket (r : List Char) :
  Ends (']' :: r)
  := by
  rintro c r' ⟨⟩
  exact .inr (.inl rfl)

theorem ends_brace (r : List Char) :
  Ends ('\x7d' :: r)
  := by
  rintro c r' ⟨⟩
  exact .inr (.inr rfl)

/-- The items of an array are read up to its end. -/
theorem items_itemsChars {x : Json} {xs : List Json} (h : ∀ item ∈ x :: xs, item.ReadsBack)
    {fuel : Nat} (rest : List Char) (hfuel : 2 * (x.toChars ++ itemsChars xs).length ≤ fuel) :
  items fuel (x.toChars ++ (itemsChars xs ++ rest)) = some (x :: xs, rest)
  := by
  induction xs generalizing x fuel with
  | nil =>
      rw [itemsChars, List.length_append, List.length_singleton] at hfuel
      obtain ⟨fuel, rfl⟩ := Nat.exists_eq_add_one_of_ne_zero (n := fuel) (by omega)
      have hx := h x List.mem_cons_self fuel (']' :: rest) (by omega) (ends_bracket rest)
      rw [itemsChars, List.singleton_append, items, hx]
      rfl
  | cons y ys ih =>
      rw [itemsChars, List.length_append, List.length_cons] at hfuel
      obtain ⟨fuel, rfl⟩ := Nat.exists_eq_add_one_of_ne_zero (n := fuel) (by omega)
      rw [List.forall_mem_cons] at h
      have hx := h.1 fuel (',' :: (y.toChars ++ (itemsChars ys ++ rest))) (by omega) (ends_comma _)
      have hy : items fuel (y.toChars ++ (itemsChars ys ++ rest)) = some (y :: ys, rest) :=
        ih h.2 (by omega)
      rw [itemsChars, List.cons_append, List.append_assoc, items, hx]
      simp only [skipBlanks_cons (show isBlank ',' = false by decide), hy, Option.map_some]

/-- The member of a name as it stands in an object. -/
def named (member : String × Json) : Option String × Json :=
  (some member.1, member.2)

/-- A record is written as the object of its members, in order. -/
theorem record_eq (members : List (String × Json)) :
  record members = .object (members.map named)
  := rfl

/-- What is read behind the value of a member: the end of the object, or other members. -/
def afterMember (fuel : Nat) (member : Option String × Json) :
    List Char → Option (List (Option String × Json) × List Char)
  | '\x7d' :: r => some ([member], r)
  | ',' :: r => (members fuel r).map fun (ms, rest) => (member :: ms, rest)
  | _ => none

/-- A member of an object is read up to what is behind its value. -/
theorem members_of_reads {name : String} {j : Json} {fuel : Nat} {s : List Char}
    (hvalue : value fuel (j.toChars ++ s) = some (j, s)) :
  members (fuel + 1) (stringChars (some name) ++ ':' :: (j.toChars ++ s))
    = afterMember fuel (some name, j) (skipBlanks s)
  := by
  have hquote : ∀ r, skipBlanks ('"' :: r) = '"' :: r := skipBlanks_cons (by decide)
  have hcolon : ∀ r, skipBlanks (':' :: r) = ':' :: r := skipBlanks_cons (by decide)
  rw [stringChars, Option.getD_some, quotedText_append, members]
  simp only [hquote, stringBody_text, hcolon, hvalue]
  rfl

/-- The members of an object are read up to its end. -/
theorem members_membersChars {m : String × Json} {ms : List (String × Json)}
    (h : ∀ member ∈ m :: ms, member.2.ReadsBack) {fuel : Nat} (rest : List Char)
    (hfuel : 2 * (m.2.toChars ++ membersChars (ms.map named)).length + 2 ≤ fuel) :
  members fuel
      (stringChars (some m.1) ++ ':' :: (m.2.toChars ++ (membersChars (ms.map named) ++ rest)))
    = some (named m :: ms.map named, rest)
  := by
  induction ms generalizing m fuel with
  | nil =>
      rw [List.map_nil, membersChars, List.length_append, List.length_singleton] at hfuel
      obtain ⟨fuel, rfl⟩ := Nat.exists_eq_add_one_of_ne_zero (n := fuel) (by omega)
      have hm := h m List.mem_cons_self fuel ('\x7d' :: rest) (by omega) (ends_brace rest)
      rw [List.map_nil, membersChars, List.singleton_append, members_of_reads hm]
      rfl
  | cons n ns ih =>
      rw [List.map_cons, named, membersChars] at hfuel
      simp only [List.length_append, List.length_cons] at hfuel
      obtain ⟨fuel, rfl⟩ := Nat.exists_eq_add_one_of_ne_zero (n := fuel) (by omega)
      rw [List.forall_mem_cons] at h
      have hn : members fuel (stringChars (some n.1) ++ ':' ::
            (n.2.toChars ++ (membersChars (ns.map named) ++ rest)))
          = some (named n :: ns.map named, rest) := by
        apply ih h.2
        rw [List.length_append]
        omega
      have hm := h.1 fuel (',' :: (stringChars (some n.1) ++ ':' ::
        (n.2.toChars ++ (membersChars (ns.map named) ++ rest)))) (by omega) (ends_comma _)
      have htext : membersChars ((n :: ns).map named) ++ rest
          = ',' :: (stringChars (some n.1) ++ ':' ::
            (n.2.toChars ++ (membersChars (ns.map named) ++ rest))) := by
        rw [List.map_cons, named, membersChars]
        simp only [List.cons_append, List.append_assoc]
      rw [htext, members_of_reads hm, skipBlanks_cons (by decide), afterMember, hn, Option.map_some,
        List.map_cons]
      rfl

/-- The text of a value takes fuel. -/
theorem Plain.exists_fuel {j : Json} (plain : j.Plain) {fuel : Nat}
    (h : 2 * j.toChars.length ≤ fuel) :
  ∃ fuel', fuel = fuel' + 1
  := by
  obtain ⟨c, r, htext, -⟩ := plain.begins []
  rw [List.append_nil] at htext
  rw [htext, List.length_cons] at h
  apply Nat.exists_eq_add_one_of_ne_zero
  omega

/-- The text of a tree is read as the tree wherever it stands. -/
theorem Plain.readsBack {j : Json} (plain : j.Plain) :
  j.ReadsBack
  := by
  induction plain with
  | null =>
      intro fuel rest hfuel _
      obtain ⟨fuel, rfl⟩ := Plain.null.exists_fuel hfuel
      rfl
  | bool b =>
      intro fuel rest hfuel _
      obtain ⟨fuel, rfl⟩ := (Plain.bool b).exists_fuel hfuel
      cases b <;> rfl
  | int n =>
      intro fuel rest hfuel ends
      obtain ⟨fuel, rfl⟩ := (Plain.int n).exists_fuel hfuel
      apply value_int fuel n ends
  | text s =>
      intro fuel rest hfuel _
      obtain ⟨fuel, rfl⟩ := (Plain.text s).exists_fuel hfuel
      apply value_text fuel s rest
  | @array items h ih =>
      intro fuel rest hfuel _
      obtain ⟨fuel, rfl⟩ := (Plain.array h).exists_fuel hfuel
      cases items with
      | nil => rfl
      | cons x xs =>
          rw [toChars, List.length_cons] at hfuel
          rw [toChars, List.cons_append, List.append_assoc,
            value_array ((h x List.mem_cons_self).begins _), items_itemsChars ih rest (by omega)]
          rfl
  | @record members h ih =>
      intro fuel rest hfuel _
      obtain ⟨fuel, rfl⟩ := (Plain.record h).exists_fuel hfuel
      cases members with
      | nil => rfl
      | cons m ms =>
          have htext : (Json.record (m :: ms)).toChars = '\x7b' ::
              (stringChars (some m.1) ++ ':' :: (m.2.toChars ++ membersChars (ms.map named))) := by
            rw [record_eq, List.map_cons, named, toChars]
          have begins : ∀ r, Begins (stringChars (some m.1) ++ r) := by
            intro r
            rw [stringChars, Option.getD_some, quotedText_append]
            exact ⟨'"', _, rfl, by decide⟩
          rw [htext] at hfuel ⊢
          simp only [List.length_append, List.length_cons] at hfuel
          have hbound : 2 * (m.2.toChars ++ membersChars (ms.map named)).length + 2 ≤ fuel := by
            rw [List.length_append]
            omega
          rw [List.cons_append, List.append_assoc, List.cons_append, List.append_assoc,
            value_object (begins _), members_membersChars ih rest hbound]
          rfl

/-- The tree of the text of a tree is the tree. -/
theorem parse?_print {j : Json} (plain : j.Plain) :
  parse? j.print = some j
  := by
  have hread := plain.readsBack (2 * j.print.length + 2) [] (by simp [print]) ends_nil
  rw [List.append_nil] at hread
  rw [parse?, print, String.toList_ofList, ← print, hread]
  rfl

end Json

end Collate
