import Collate.ChildMap
import Collate.Proofs.Joining
import Collate.Proofs.TotalOrder

/-!
# The identity of values and keys

Values have one identity, however it is asked for: the order, equality, the comparison that may be
without an answer, and the bytes from which a value is hashed tell apart the same values.  The bytes
of a value end where they must, so that no two lists of values have the same bytes one after the
other, and all of this is handed on to keys.
-/

namespace Collate

/-! ### Lists in lexicographic order -/

section

variable {α : Type}

theorem compareLex_eq_lt_iff {cmp : α → α → Ordering} [Std.LawfulEqCmp cmp] {as bs : List α} :
  as.compareLex cmp bs = .lt ↔ List.Lex (fun a b => cmp a b = .lt) as bs
  := by
  induction as generalizing bs with
  | nil =>
      cases bs with
      | nil => exact iff_of_false (by simp [List.compareLex_nil_nil]) (by rintro ⟨⟩)
      | cons b bs => exact iff_of_true rfl .nil
  | cons a as ih =>
      cases bs with
      | nil => exact iff_of_false (by simp [List.compareLex_cons_nil]) (by rintro ⟨⟩)
      | cons b bs =>
          have hsame : cmp a b = .eq ↔ a = b := Std.LawfulEqCmp.compare_eq_iff_eq
          rw [List.compareLex_cons_cons, Ordering.then_eq_lt, ih, hsame]
          constructor
          · rintro (less | ⟨rfl, rest⟩)
            · exact .rel less
            · exact .cons rest
          · intro lex
            cases lex with
            | rel less =>
                left
                apply less
            | cons rest =>
                right
                exact ⟨rfl, rest⟩

/-- What ends with a mark that it does not hold itself can be told from what follows it. -/
theorem append_mark_inj {mark : α} {as bs xs ys : List α} (ha : mark ∉ as) (hb : mark ∉ bs)
    (h : as ++ mark :: xs = bs ++ mark :: ys) :
  as = bs ∧ xs = ys
  := by
  induction as generalizing bs with
  | nil =>
      cases bs with
      | nil => simpa using h
      | cons b bs =>
          obtain ⟨rfl, -⟩ := List.cons.inj h
          simp at hb
  | cons a as ih =>
      cases bs with
      | nil =>
          obtain ⟨rfl, -⟩ := List.cons.inj h
          simp at ha
      | cons b bs =>
          obtain ⟨rfl, hrest⟩ := List.cons.inj h
          obtain ⟨rfl, rfl⟩ := ih (List.not_mem_of_not_mem_cons ha)
            (List.not_mem_of_not_mem_cons hb) hrest
          simp

end

/-! ### One identity -/

/-- What all that tells elements apart should have in common: a comparison is a linear order, and
equality, the comparison that may be without an answer, and the bytes that are hashed agree with
it. -/
structure LawfulIdentity {α : Type} (cmp : α → α → Ordering) (equal : α → α → Bool)
    (partialCmp : α → α → Option Ordering) (digest : α → List UInt8) : Prop where
  refl (a : α) : cmp a a = .eq
  swap (a b : α) : cmp b a = (cmp a b).swap
  antisymm (a b : α) : (cmp a b).isLE → (cmp b a).isLE → a = b
  trans (a b c : α) : (cmp a b).isLE → (cmp b c).isLE → (cmp a c).isLE
  total (a b : α) : (cmp a b).isLE ∨ (cmp b a).isLE
  /-- Only an element itself compares equal to it. -/
  same (a b : α) : cmp a b = .eq ↔ a = b
  equal_iff (a b : α) : equal a b = true ↔ cmp a b = .eq
  partial_eq (a b : α) : partialCmp a b = some (cmp a b)
  /-- Equal elements are hashed from the same bytes, and no others are. -/
  digest_eq_iff (a b : α) : digest a = digest b ↔ cmp a b = .eq

/-- A lawful comparison is a linear order, so that what else tells elements apart need only agree
with being the same element. -/
theorem LawfulIdentity.of_lawful {α : Type} {cmp : α → α → Ordering} [Std.TransCmp cmp]
    [Std.LawfulEqCmp cmp] {equal : α → α → Bool} {partialCmp : α → α → Option Ordering}
    {digest : α → List UInt8} (equal_iff : ∀ a b, equal a b = true ↔ a = b)
    (partial_eq : ∀ a b, partialCmp a b = some (cmp a b))
    (digest_inj : ∀ a b, digest a = digest b → a = b) :
  LawfulIdentity cmp equal partialCmp digest
  := by
  have hsame (a b : α) : cmp a b = .eq ↔ a = b := Std.LawfulEqCmp.compare_eq_iff_eq
  constructor
  case refl => exact fun a => Std.ReflCmp.compare_self
  case swap => exact fun a b => Std.OrientedCmp.eq_swap
  case antisymm =>
    intro a b hab hba
    apply (hsame a b).mp (Std.OrientedCmp.isLE_antisymm hab hba)
  case trans => exact fun a b c => Std.TransCmp.isLE_trans
  case total =>
    intro a b
    by_cases hab : (cmp a b).isLE
    · left
      apply hab
    · right
      have hba : cmp b a = .lt := Std.OrientedCmp.lt_of_not_isLE hab
      rw [hba]
      rfl
  case same => exact hsame
  case equal_iff => exact fun a b => (equal_iff a b).trans (hsame a b).symm
  case partial_eq => exact partial_eq
  case digest_eq_iff =>
    intro a b
    rw [hsame]
    exact ⟨digest_inj a b, congrArg digest⟩

/-! ### Bytes -/

theorem length_littleEndian (n x : ℕ) :
  (littleEndian n x).length = n
  := by
  induction n generalizing x with
  | zero => rfl
  | succ n ih => rw [littleEndian, List.length_cons, ih]

theorem eq_of_littleEndian_eq {n x y : ℕ} (hx : x < 256 ^ n) (hy : y < 256 ^ n)
    (h : littleEndian n x = littleEndian n y) :
  x = y
  := by
  induction n generalizing x y with
  | zero =>
      simp only [Nat.pow_zero] at hx hy
      omega
  | succ n ih =>
      obtain ⟨hlow, hhigh⟩ := List.cons.inj h
      have hlow : x % 256 = y % 256 := by simpa [← UInt8.toNat_inj] using hlow
      have hquotient : x / 256 = y / 256 := by
        apply ih _ _ hhigh <;> rw [Nat.pow_succ] at hx hy <;> omega
      omega

/-- Eight bytes hold a word, and what follows them can be told apart. -/
theorem littleEndian_append_inj {x y : UInt64} {xs ys : List UInt8}
    (h : littleEndian 8 x.toNat ++ xs = littleEndian 8 y.toNat ++ ys) :
  x = y ∧ xs = ys
  := by
  have hlength : (littleEndian 8 x.toNat).length = (littleEndian 8 y.toNat).length := by
    rw [length_littleEndian, length_littleEndian]
  obtain ⟨hword, hrest⟩ := List.append_inj h hlength
  have hnat := eq_of_littleEndian_eq x.toNat_lt y.toNat_lt hword
  exact ⟨UInt64.toNat_inj.mp hnat, hrest⟩

/-- No byte of a text is `0xff`. -/
theorem mark_notMem_utf8Bytes (s : String) :
  0xff ∉ utf8Bytes s
  := by
  obtain ⟨chars, hchars⟩ := s.isValidUTF8
  have hbytes : utf8Bytes s = chars.flatMap String.utf8EncodeChar := by
    rw [utf8Bytes, hchars, List.utf8Encode]
    simp
  rw [hbytes, List.mem_flatMap]
  rintro ⟨c, -, hc⟩
  simp only [String.utf8EncodeChar] at hc
  generalize c.val.toNat = code at hc
  split_ifs at hc <;> simp [← UInt8.toNat_inj] at hc <;> omega

/-! ### Values -/

namespace Val

/-- One value stands before another: kinds in the order of their ranks, values of one kind by what
they hold. -/
inductive Before : Val → Val → Prop where
  | kinds {a b : Val} (lower : a.rank < b.rank) : Before a b
  | booleans : Before (.boolean false) (.boolean true)
  | longs {m n : Int64} (less : m.toInt < n.toInt) : Before (.long m) (.long n)
  | doubles {d e : Double} (before : d.Before e) : Before (.double d) (.double e)
  /-- Texts stand by their bytes. -/
  | texts {s t : String} (before : List.Lex (· < ·) (utf8Bytes s) (utf8Bytes t)) :
      Before (.text s) (.text t)

/-- Texts are compared by their bytes. -/
theorem compare_utf8Bytes_eq_lt_iff {s t : String} :
  compare (utf8Bytes s) (utf8Bytes t) = .lt ↔ List.Lex (· < ·) (utf8Bytes s) (utf8Bytes t)
  := by
  have hbyte (x y : UInt8) : compare x y = .lt ↔ x < y := Std.compare_eq_lt
  rw [List.compare_eq_compareLex, compareLex_eq_lt_iff]
  simp only [hbyte]

theorem order_eq_lt_iff {a b : Val} :
  a.order b = .lt ↔ a.Before b
  := by
  constructor
  · intro less
    cases a <;> cases b
    case boolean.boolean x y =>
      cases x <;> cases y <;> try contradiction
      apply Before.booleans
    case long.long m n =>
      apply Before.longs
      apply Int64.lt_iff_toInt_lt.mp (Std.compare_eq_lt.mp less)
    case double.double d e => exact .doubles (Double.compare_eq_lt_iff.mp less)
    case text.text s t => exact .texts (compare_utf8Bytes_eq_lt_iff.mp less)
    case null.null => contradiction
    all_goals exact .kinds (Nat.compare_eq_lt.mp less)
  · intro before
    cases before with
    | kinds lower =>
        rw [order_eq_compareLex, compareLex, compareOn, Nat.compare_eq_lt.mpr lower]
        rfl
    | booleans => rfl
    | longs less => exact Std.compare_eq_lt.mpr (Int64.lt_iff_toInt_lt.mpr less)
    | doubles before => exact Double.compare_eq_lt_iff.mpr before
    | texts before => exact compare_utf8Bytes_eq_lt_iff.mpr before

/-- The bytes of a value can be told from what follows them. -/
theorem digest_append_inj {a b : Val} {xs ys : List UInt8} (h : a.digest ++ xs = b.digest ++ ys) :
  a = b ∧ xs = ys
  := by
  cases a <;> cases b <;> simp only [digest, List.cons_append, List.cons.injEq] at h
  case null.null => simpa using h
  case boolean.boolean x y => cases x <;> cases y <;> simp_all
  case long.long m n =>
    obtain ⟨hword, rfl⟩ := littleEndian_append_inj h.2
    obtain ⟨x⟩ := m
    obtain ⟨y⟩ := n
    obtain rfl : x = y := hword
    simp
  case double.double d e =>
    obtain ⟨hword, rfl⟩ := littleEndian_append_inj h.2
    obtain ⟨x⟩ := d
    obtain ⟨y⟩ := e
    obtain rfl : x = y := hword
    simp
  case text.text s t =>
    rw [List.append_assoc, List.append_assoc] at h
    obtain ⟨hbytes, rfl⟩ :=
      append_mark_inj (mark_notMem_utf8Bytes s) (mark_notMem_utf8Bytes t) h.2
    rw [utf8Bytes_injective hbytes]
    simp
  all_goals exact absurd h.1 (by decide)

theorem equal_iff {a b : Val} :
  a.equal b = true ↔ a = b
  := by
  rw [equal, beq_iff_eq]
  apply Std.LawfulEqCmp.compare_eq_iff_eq

theorem lawfulIdentity :
  LawfulIdentity order equal partialOrder? digest
  := by
  apply LawfulIdentity.of_lawful
  · intro a b
    apply equal_iff
  · intro a b
    rfl
  · intro a b h
    apply (digest_append_inj (congrArg (· ++ []) h)).1

end Val

/-! ### Keys -/

namespace Key

instance : Std.TransCmp order :=
  transCmp_on Key.values (List.compareLex Val.order)

instance : Std.LawfulEqCmp order where
  eq_of_compare := by
    intro a b h
    obtain ⟨vs⟩ := a
    obtain ⟨ws⟩ := b
    have h : vs.compareLex Val.order ws = .eq := h
    rw [Std.LawfulEqCmp.eq_of_compare h]

/-- Keys stand in the lexicographic order of their values. -/
theorem order_eq_lt_iff {a b : Key} :
  a.order b = .lt ↔ List.Lex Val.Before a.values b.values
  := by
  change a.values.compareLex Val.order b.values = .lt ↔ _
  rw [compareLex_eq_lt_iff]
  simp only [Val.order_eq_lt_iff]

theorem isEqv_equal_iff {vs ws : List Val} :
  vs.isEqv ws Val.equal = true ↔ vs = ws
  := by
  induction vs generalizing ws with
  | nil => cases ws <;> simp
  | cons v vs ih =>
      cases ws with
      | nil => simp
      | cons w ws => simp [List.isEqv_cons_cons, Val.equal_iff, ih]

theorem equal_iff {a b : Key} :
  a.equal b = true ↔ a = b
  := by
  rw [equal, isEqv_equal_iff]
  exact ⟨congrArg Key.mk, congrArg Key.values⟩

theorem partialCompare?_eq (vs ws : List Val) :
  partialCompare? vs ws = some (vs.compareLex Val.order ws)
  := by
  induction vs generalizing ws with
  | nil => cases ws <;> rfl
  | cons v vs ih =>
      cases ws with
      | nil => rfl
      | cons w ws =>
          rw [partialCompare?, List.compareLex, Val.partialOrder?, ih]
          cases v.order w <;> rfl

/-- Values whose bytes are the same one after the other are the same values. -/
theorem flatMap_digest_injective {vs ws : List Val}
    (h : vs.flatMap Val.digest = ws.flatMap Val.digest) :
  vs = ws
  := by
  have ne_nil (v : Val) : v.digest ≠ [] := by cases v <;> simp [Val.digest]
  induction vs generalizing ws with
  | nil =>
      cases ws with
      | nil => rfl
      | cons w ws => simp [ne_nil] at h
  | cons v vs ih =>
      cases ws with
      | nil => simp [ne_nil] at h
      | cons w ws =>
          rw [List.flatMap_cons, List.flatMap_cons] at h
          obtain ⟨rfl, hrest⟩ := Val.digest_append_inj h
          rw [ih hrest]

theorem digest_injective {a b : Key} (h : a.digest = b.digest) :
  a = b
  := by
  obtain ⟨vs⟩ := a
  obtain ⟨ws⟩ := b
  have hlength : (littleEndian 8 vs.length).length = (littleEndian 8 ws.length).length := by
    rw [length_littleEndian, length_littleEndian]
  obtain rfl : vs = ws := flatMap_digest_injective (List.append_inj h hlength).2
  rfl

theorem lawfulIdentity :
  LawfulIdentity order equal partialOrder? digest
  := by
  apply LawfulIdentity.of_lawful
  · intro a b
    apply equal_iff
  · intro a b
    apply partialCompare?_eq
  · intro a b
    apply digest_injective

/-- Looking for a key by its hash and by equality comes to looking for the key itself. -/
theorem find?_hashed {ι : Type} [DecidableEq ι] (hash : List UInt8 → ι) (m : ChildMap)
    (key : Key) :
  (m.entries.find? fun entry =>
      hash entry.1.digest = hash key.digest ∧ entry.1.equal key).map (·.2) = m.find? key
  := by
  have hfound (k : Key) :
      decide (hash k.digest = hash key.digest ∧ k.equal key = true) = (key == k) := by
    by_cases h : key = k
    · simp [h, equal_iff]
    · have hk : ¬ k.equal key = true := fun he => h (equal_iff.mp he).symm
      simp [h, hk]
  simp only [hfound, ChildMap.find?]
  induction m.entries with
  | nil => rfl
  | cons entry entries ih =>
      rw [List.find?_cons, List.lookup_cons, ← ih]
      cases key == entry.1 <;> rfl

end Key

/-- Values have one identity and stand in one linear order: by kind, within a kind by what they
hold, doubles by the total order of their format, in which each word has a place of its own, and
texts by their bytes.  The same holds of keys, which stand in the lexicographic order of their
values; so a table of hashed keys finds under a key the rows of the very same path, whatever the
hash. -/
theorem values_and_keys_have_one_identity :
  LawfulIdentity Val.order Val.equal Val.partialOrder? Val.digest
    ∧ (∀ v w : Val, v.order w = .lt ↔ v.Before w)
    ∧ (∀ b n d s, [Val.null, .boolean b, .long n, .double d, .text s].Pairwise
      fun v w => v.order w = .lt)
    ∧ (∀ d e : Double, (Val.double d).order (.double e) = .eq ↔ d.bits = e.bits)
    ∧ LawfulIdentity Key.order Key.equal Key.partialOrder? Key.digest
    ∧ (∀ a b : Key, a.order b = .lt ↔ List.Lex Val.Before a.values b.values)
    ∧ ∀ {ι : Type} [DecidableEq ι] (hash : List UInt8 → ι),
      (∀ a b : Key, hash a.digest = hash b.digest ∧ a.equal b = true ↔ a.values = b.values)
        ∧ ∀ (m : ChildMap) (key : Key),
          (m.entries.find? fun entry =>
            hash entry.1.digest = hash key.digest ∧ entry.1.equal key).map (·.2) = m.find? key
  := by
  refine ⟨Val.lawfulIdentity, fun v w => Val.order_eq_lt_iff, ?kinds, ?words, Key.lawfulIdentity,
    fun a b => Key.order_eq_lt_iff, fun hash => ⟨?path, fun m key => Key.find?_hashed hash m key⟩⟩
  case kinds =>
    intro b n d s
    have ranks : [Val.null, .boolean b, .long n, .double d, .text s].Pairwise
        fun v w => v.rank < w.rank := by
      simp [Val.rank]
    apply ranks.imp
    intro v w lower
    apply Val.order_eq_lt_iff.mpr (.kinds lower)
  case words =>
    intro d e
    rw [Val.lawfulIdentity.same, Val.double.injEq]
    exact ⟨congrArg Double.bits, congrArg Double.mk⟩
  case path =>
    intro a b
    rw [Key.equal_iff]
    constructor
    · rintro ⟨-, rfl⟩
      rfl
    · intro h
      obtain rfl : a = b := congrArg Key.mk h
      simp

end Collate
