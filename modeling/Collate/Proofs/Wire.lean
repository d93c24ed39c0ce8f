import Mathlib.Data.List.Nodup
import Collate.Proofs.Json
import Collate.Wire.Search

/-!
# Reading requests and responses back

The text of a request, or of a response in which no value is a double, is read back as what was
written.  A request is also read from a text that leaves out parts that have their usual values.
Each codec is shown to read the form that it gives, records from their parts.

Of the library that writes and reads the texts only `JsonLibrary.Lawful` is used: from the text of a
tree with integers and texts in it the tree is read back.
-/

namespace Collate

/-! ### Numbers -/

namespace Number

/-- A natural number below `2^64` is read as itself. -/
theorem read_natural {n : Nat} (h : n < UInt64.size) :
  read (.ofInt n) = some (.natural (UInt64.ofNat n))
  := by
  have hsign : ¬ (n : Int) < 0 := by omega
  simp [read, Numeral.ofInt, hsign, h]

/-- A negative integer from `-2^63` on is read as itself. -/
theorem read_negative {n : Int} (hn : n < 0) (h : -0x8000000000000000 ≤ n) :
  read (.ofInt n) = some (.negative (Int64.ofInt n))
  := by
  have hsize : n.natAbs < UInt64.size := by
    have : UInt64.size = 0x10000000000000000 := rfl
    omega
  have hfits : ¬ (n.natAbs = 0 ∨ 0x8000000000000000 < n.natAbs) := by omega
  have hneg : -(n.natAbs : Int) = n := by omega
  rw [read, Numeral.ofInt]
  simp only [Digits.value_ofNat, true_and, hsize, if_true, decide_eq_true hn, if_neg hfits, hneg]

end Number

/-! ### Objects -/

namespace Json

/-- The members that are not left out. -/
def present (parts : List (String × Option Json)) : List (String × Json) :=
  parts.filterMap fun (name, value) => value.map (name, ·)

/-- An object in which members may be left out. -/
def sparse (parts : List (String × Option Json)) : Json :=
  .record (present parts)

/-- A member is present exactly if its part has its value. -/
theorem mem_present {parts : List (String × Option Json)} {member : String × Json} :
  member ∈ present parts ↔ (member.1, some member.2) ∈ parts
  := by
  rw [present, List.mem_filterMap]
  constructor
  · rintro ⟨⟨name, value⟩, hpart, hmember⟩
    obtain ⟨j, rfl, rfl⟩ := Option.map_eq_some_iff.mp hmember
    apply hpart
  · intro h
    exact ⟨_, h, rfl⟩

/-- An object with plain members is plain, whichever are left out. -/
theorem plain_sparse {parts : List (String × Option Json)}
    (h : ∀ part ∈ parts, ∀ j, part.2 = some j → j.Plain) :
  (sparse parts).Plain
  := by
  apply Plain.record
  intro member hmember
  apply h _ (mem_present.mp hmember) _ rfl

/-- A name that no part has is found nowhere. -/
theorem filter_present_of_notMem {parts : List (String × Option Json)} {name : String}
    (h : name ∉ parts.map (·.1)) :
  ((present parts).map named).filter (·.1 == some name) = []
  := by
  apply List.filter_eq_nil_iff.mpr
  intro spelled hspelled hname
  obtain ⟨member, hmember, rfl⟩ := List.mem_map.mp hspelled
  obtain rfl : member.1 = name := by simpa [named] using hname
  exact h (List.mem_map_of_mem (mem_present.mp hmember))

/-- The name of a part is found where the part is. -/
theorem filter_present {parts : List (String × Option Json)} (distinct : (parts.map (·.1)).Nodup)
    {part : String × Option Json} (hpart : part ∈ parts) :
  ((present parts).map named).filter (·.1 == some part.1)
    = (part.2.map fun j => (some part.1, j)).toList
  := by
  induction parts with
  | nil => contradiction
  | cons first parts ih =>
      obtain ⟨name, value⟩ := first
      rw [List.map_cons, List.nodup_cons] at distinct
      have hpresent : (present ((name, value) :: parts)).map named
          = (value.map fun j => (some name, j)).toList ++ (present parts).map named := by
        cases value <;> rfl
      rw [hpresent, List.filter_append]
      obtain rfl | hrest := List.mem_cons.mp hpart
      · rw [filter_present_of_notMem distinct.1]
        cases value <;> simp
      · have hname : name ≠ part.1 := by
          rintro rfl
          exact distinct.1 (List.mem_map.mpr ⟨part, hrest, rfl⟩)
        rw [ih distinct.2 hrest]
        cases value <;> simp [hname]

theorem mapM_map_eq_some {α β γ : Type} {f : β → Option γ} {g : α → β} {k : α → γ} {xs : List α}
    (h : ∀ x ∈ xs, f (g x) = some (k x)) :
  (xs.map g).mapM f = some (xs.map k)
  := by
  induction xs with
  | nil => rfl
  | cons x xs ih =>
      rw [List.forall_mem_cons] at h
      rw [List.map_cons, List.mapM_cons, h.1, ih h.2]
      rfl

/-- The parts of an object are found under their names. -/
theorem members?_sparse {parts : List (String × Option Json)} {names : List String}
    (hnames : parts.map (·.1) = names) (distinct : names.Nodup) :
  (sparse parts).members? names = some (parts.map (·.2))
  := by
  subst hnames
  have hspelled : ((present parts).map named).all (·.1.isSome) = true := by
    simp [named]
  rw [sparse, record_eq, members?, if_pos hspelled]
  apply mapM_map_eq_some
  intro part hpart
  rw [filter_present distinct hpart]
  cases part.2 <;> rfl

end Json

/-! ### Codecs -/

/-- What may be relied on of a library: the text of a plain tree is read as the tree. -/
def JsonLibrary.Lawful (library : JsonLibrary) : Prop :=
  ∀ j : Json, j.Plain → library.parse? (library.print j) = some j

/-- The library that writes compact texts may be relied on. -/
theorem Json.library_lawful :
  Json.library.Lawful
  := fun _ plain => parse?_print plain

namespace Codec

variable {α β : Type} {c : Codec α} {a usual : α} {j : Json}

/-- A tree from which a value is read, and which is the tree of its text. -/
structure Reads (c : Codec α) (j : Json) (a : α) : Prop where
  plain : j.Plain
  decode : c.decode j = some a

/-- A value that is read from the form it is given. -/
def Restores (c : Codec α) (a : α) : Prop :=
  c.Reads (c.encode a) a

/-- A member from which a part is read.  It may be left out if the part has its usual value. -/
def Part (c : Codec α) (usual : Option α) (a : α) : Option Json → Prop
  | none => usual = some a
  | some j => c.Reads j a

/-- A member that is left out if the part has its usual value, unless it is to be kept. -/
def ifUnusual [DecidableEq α] (c : Codec α) (usual a : α) (keep : Bool) : Option Json :=
  if a = usual ∧ keep = false then none else some (c.encode a)

/-- A value is read from the text of the tree from which it is read. -/
theorem Reads.readBy?_print {library : JsonLibrary} (laws : library.Lawful) (reads : c.Reads j a) :
  c.readBy? library (library.print j) = some a
  := by
  rw [readBy?, laws j reads.plain, Option.bind_some, reads.decode]

/-- A part that is restored may stand under its name. -/
theorem Restores.part (restores : c.Restores a) {usual : Option α} :
  c.Part usual a (some (c.encode a))
  := restores

/-- A part that has to be there is read from its member. -/
theorem Part.required {member : Option Json} (part : c.Part none a member) :
  c.required member = some a
  := by
  cases member with
  | none => contradiction
  | some j => apply part.decode

/-- A part that may be left out is read from its member, or is the usual one. -/
theorem Part.orElse {member : Option Json} (part : c.Part (some usual) a member) :
  c.orElse usual member = some a
  := by
  cases member with
  | none => apply part
  | some j => apply part.decode

theorem Part.plain {usual : Option α} {member : Option Json} (part : c.Part usual a member) :
  ∀ j, member = some j → j.Plain
  := by
  rintro j rfl
  apply Reads.plain part

/-- A part is read whether or not its member is left out for being usual. -/
theorem Restores.ifUnusual [DecidableEq α] (restores : c.Restores a) (usual : α) (keep : Bool) :
  c.Part (some usual) a (c.ifUnusual usual a keep)
  := by
  rw [Codec.ifUnusual]
  split
  next h => rw [h.1, Part]
  next => apply restores

/-! ### Forms of values, lists and the like -/

theorem restores_bool (b : Bool) :
  bool.Restores b
  := ⟨.bool b, rfl⟩

theorem restores_text (s : String) :
  text.Restores s
  := ⟨.text s, rfl⟩

/-- Numbers up to `2^64 - 1` are read back, for none of them is written with a fraction. -/
theorem restores_natural (n : UInt64) :
  natural.Restores n
  := by
  use .int n.toNat
  simp only [natural, number?, Json.int, Number.read_natural n.toNat_lt, UInt64.ofNat_toNat]

theorem restores_smallNatural (n : UInt32) :
  smallNatural.Restores n
  := by
  have hsize : n.toNat < UInt64.size := lt_trans n.toNat_lt (by decide)
  use .int n.toNat
  simp only [smallNatural, number?, Json.int, Number.read_natural hsize]
  simp [n.toNat_lt]

/-- Integers are read back, negative or not. -/
theorem restores_integer (n : Int64) :
  integer.Restores n
  := by
  use .int n.toInt
  have hleast : -0x8000000000000000 ≤ n.toInt := n.minValue_le_toInt
  have hgreatest : n.toInt ≤ 0x7fffffffffffffff := n.toInt_le
  by_cases hn : n.toInt < 0
  · simp only [integer, number?, Json.int, Number.read_negative hn hleast, Int64.ofInt_toInt]
  · obtain ⟨m, hm⟩ := Int.eq_ofNat_of_zero_le (Int.not_lt.mp hn)
    rw [hm] at hgreatest
    have hsize : m < UInt64.size := by
      have : UInt64.size = 0x10000000000000000 := rfl
      omega
    have hfits : (UInt64.ofNat m).toNat < 0x8000000000000000 := by
      rw [UInt64.toNat_ofNat_of_lt' hsize]
      omega
    have hback : (UInt64.ofNat m).toInt64 = n := by
      rw [UInt64.toInt64_ofNat', ← Int64.ofInt_eq_ofNat, ← hm, Int64.ofInt_toInt]
    simp only [integer, number?, Json.int, hm, Number.read_natural hsize, if_pos hfits, hback]

/-- A list is read from the array of trees from which its elements are read. -/
theorem reads_list {form : α → Json} {as : List α} (h : ∀ a ∈ as, c.Reads (form a) a) :
  c.list.Reads (.array (as.map form)) as
  := by
  constructor
  · apply Json.Plain.array
    rw [List.forall_mem_map]
    intro a ha
    apply (h a ha).plain
  · apply (Json.mapM_map_eq_some fun a ha => (h a ha).decode).trans
    rw [List.map_id']

/-- A list is restored if its elements are. -/
theorem restores_list {as : List α} (h : ∀ a ∈ as, c.Restores a) :
  c.list.Restores as
  := reads_list h

/-- A part that is there is not taken for one that is missing, unless it has the form null. -/
theorem Reads.nullable (reads : c.Reads j a) (hj : j ≠ .null) :
  c.nullable.Reads j (some a)
  := by
  use reads.plain
  simp only [Codec.nullable]
  rw [reads.decode, Option.map_some]

/-- A part that may be missing is restored, if no value of it has the form of its absence. -/
theorem restores_nullable {part : Option α} (h : ∀ a, part = some a → c.Restores a)
    (hnull : ∀ a, c.encode a ≠ .null) :
  c.nullable.Restores part
  := by
  cases part with
  | none => exact ⟨.null, rfl⟩
  | some a => apply (h a rfl).nullable (hnull a)

/-- A type whose values are told apart by those of another is restored by way of them. -/
theorem restores_via {c : Codec β} {forth : α → β} {back : β → α} (h : c.Restores (forth a))
    (hback : back (forth a) = a) :
  (c.via forth back).Restores a
  := by
  use h.plain
  have hdecode : (c.via forth back).decode ((c.via forth back).encode a)
      = (c.decode (c.encode (forth a))).map back := rfl
  rw [hdecode, h.decode, Option.map_some, hback]

/-- A record is read from an object of its parts, if the names of the parts differ. -/
theorem reads_sparse (names : List String) {parts : List (String × Option Json)}
    (plain : ∀ part ∈ parts, ∀ j, part.2 = some j → j.Plain)
    (hnames : parts.map (·.1) = names) (distinct : names.Nodup)
    (hdecode : (Json.sparse parts).members? names = some (parts.map (·.2)) →
      c.decode (.sparse parts) = some a) :
  c.Reads (.sparse parts) a
  := ⟨Json.plain_sparse plain, hdecode (Json.members?_sparse hnames distinct)⟩

end Codec

/-! ### Requests -/

theorem SortDirection.restores (d : SortDirection) :
  SortDirection.codec.Restores d
  := by
  cases d with
  | ascending => exact ⟨.text "ASCENDING", rfl⟩
  | descending => exact ⟨.text "DESCENDING", rfl⟩

/-- An order to sort by is read from an object with its parts in it. -/
theorem SortSpec.reads {s : SortSpec} {order direction : Option Json}
    (horder : Codec.smallNatural.Part none s.order order)
    (hdirection : SortDirection.codec.Part none s.direction direction) :
  SortSpec.codec.Reads (.sparse [("order", order), ("direction", direction)]) s
  := by
  refine Codec.reads_sparse ["order", "direction"] ?plain rfl (by decide) ?decode
  case plain => simpa using ⟨horder.plain, hdirection.plain⟩
  case decode =>
    intro hmembers
    simp only [SortSpec.codec, hmembers, List.map_cons, List.map_nil, horder.required,
      hdirection.required]
    rfl

theorem SortSpec.restores (s : SortSpec) :
  SortSpec.codec.Restores s
  := SortSpec.reads (Codec.restores_smallNatural s.order).part s.direction.restores.part

/-- A field is read from an object with its parts in it, each of which may have been left out but
the name. -/
theorem Field.reads {f : Field} {name expression sort group : Option Json}
    (hname : Codec.text.Part none f.name name)
    (hexpression : Codec.text.nullable.Part (some none) f.expression expression)
    (hsort : SortSpec.codec.nullable.Part (some none) f.sort sort)
    (hgroup : Codec.natural.nullable.Part (some none) f.group group) :
  Field.codec.Reads
    (.sparse [("name", name), ("expression", expression), ("sort", sort), ("group", group)]) f
  := by
  refine Codec.reads_sparse ["name", "expression", "sort", "group"] ?plain rfl (by decide) ?decode
  case plain => simpa using ⟨hname.plain, hexpression.plain, hsort.plain, hgroup.plain⟩
  case decode =>
    intro hmembers
    simp only [Field.codec, hmembers, List.map_cons, List.map_nil, hname.required,
      hexpression.orElse, hsort.orElse, hgroup.orElse]
    rfl

namespace Field

theorem restores_expression (f : Field) :
  Codec.text.nullable.Restores f.expression
  := Codec.restores_nullable (fun e _ => Codec.restores_text e) nofun

theorem restores_sort (f : Field) :
  SortSpec.codec.nullable.Restores f.sort
  := Codec.restores_nullable (fun s _ => s.restores) nofun

theorem restores_group (f : Field) :
  Codec.natural.nullable.Restores f.group
  := Codec.restores_nullable (fun n _ => Codec.restores_natural n) nofun

/-- A field is read from the form it is given. -/
theorem restores (f : Field) :
  Field.codec.Restores f
  := Field.reads (Codec.restores_text f.name).part f.restores_expression.part f.restores_sort.part
    f.restores_group.part

/-- The form of a field that leaves out what is usual, save for the members that are kept. -/
def brief (keep : String → Bool) (f : Field) : Json :=
  .sparse [("name", some (Codec.text.encode f.name)),
    ("expression", Codec.text.nullable.ifUnusual none f.expression (keep "expression")),
    ("sort", SortSpec.codec.nullable.ifUnusual none f.sort (keep "sort")),
    ("group", Codec.natural.nullable.ifUnusual none f.group (keep "group"))]

/-- A field is read from an object that leaves out any of its usual parts. -/
theorem reads_brief (keep : String → Bool) (f : Field) :
  Field.codec.Reads (f.brief keep) f
  := Field.reads (Codec.restores_text f.name).part (f.restores_expression.ifUnusual none _)
    (f.restores_sort.ifUnusual none _) (f.restores_group.ifUnusual none _)

end Field

theorem Sizes.restores (s : Sizes) :
  Sizes.codec.Restores s
  := Codec.restores_via (Codec.restores_list fun n _ => Codec.restores_natural n) rfl

/-- A window is read from an object with its parts in it. -/
theorem Window.reads {w : Window} {offset length : Option Json}
    (hoffset : Codec.natural.Part none w.offset offset)
    (hlength : Codec.natural.Part none w.length length) :
  Window.codec.Reads (.sparse [("offset", offset), ("length", length)]) w
  := by
  refine Codec.reads_sparse ["offset", "length"] ?plain rfl (by decide) ?decode
  case plain => simpa using ⟨hoffset.plain, hlength.plain⟩
  case decode =>
    intro hmembers
    simp only [Window.codec, hmembers, List.map_cons, List.map_nil, hoffset.required,
      hlength.required]
    rfl

theorem Window.restores (w : Window) :
  Window.codec.Restores w
  := Window.reads (Codec.restores_natural w.offset).part (Codec.restores_natural w.length).part

/-- A component is read from an object with its parts in it, some of which may have been left out.
-/
theorem Component.reads {c : Component}
    {id fields showDetail maxResults storeSize range : Option Json}
    (hid : Codec.text.Part none c.id id)
    (hfields : Field.codec.list.Part none c.fields fields)
    (hshowDetail : Codec.bool.Part (some false) c.showDetail showDetail)
    (hmaxResults : Sizes.codec.nullable.Part (some none) c.maxResults maxResults)
    (hstoreSize : Sizes.codec.Part (some .unbounded) c.storeSize storeSize)
    (hrange : Window.codec.nullable.Part (some none) c.range range) :
  Component.codec.Reads
    (.sparse [("componentId", id), ("fields", fields), ("showDetail", showDetail),
      ("maxResults", maxResults), ("storeSize", storeSize), ("requestedRange", range)]) c
  := by
  refine Codec.reads_sparse ["componentId", "fields", "showDetail", "maxResults", "storeSize",
    "requestedRange"] ?plain rfl (by decide) ?decode
  case plain =>
    simpa using ⟨hid.plain, hfields.plain, hshowDetail.plain, hmaxResults.plain, hstoreSize.plain,
      hrange.plain⟩
  case decode =>
    intro hmembers
    simp only [Component.codec, hmembers, List.map_cons, List.map_nil, hid.required,
      hfields.required, hshowDetail.orElse, hmaxResults.orElse, hstoreSize.orElse, hrange.orElse]
    rfl

namespace Component

theorem restores_maxResults (c : Component) :
  Sizes.codec.nullable.Restores c.maxResults
  := Codec.restores_nullable (fun s _ => s.restores) nofun

theorem restores_range (c : Component) :
  Window.codec.nullable.Restores c.range
  := Codec.restores_nullable (fun w _ => w.restores) nofun

/-- A component is read from the form it is given. -/
theorem restores (c : Component) :
  Component.codec.Restores c
  := Component.reads (Codec.restores_text c.id).part
    (Codec.restores_list fun f _ => f.restores).part (Codec.restores_bool c.showDetail).part
    c.restores_maxResults.part c.storeSize.restores.part c.restores_range.part

/-- The form of a component that leaves out what is usual, save for the members that are kept. -/
def brief (keep : String → Bool) (c : Component) : Json :=
  .sparse [("componentId", some (Codec.text.encode c.id)),
    ("fields", some (.array (c.fields.map (Field.brief keep)))),
    ("showDetail", Codec.bool.ifUnusual false c.showDetail (keep "showDetail")),
    ("maxResults", Sizes.codec.nullable.ifUnusual none c.maxResults (keep "maxResults")),
    ("storeSize", Sizes.codec.ifUnusual .unbounded c.storeSize (keep "storeSize")),
    ("requestedRange", Window.codec.nullable.ifUnusual none c.range (keep "requestedRange"))]

/-- A component is read from an object that leaves out any of its usual parts, in its fields as
well. -/
theorem reads_brief (keep : String → Bool) (c : Component) :
  Component.codec.Reads (c.brief keep) c
  := by
  have hfields : Field.codec.list.Reads (.array (c.fields.map (Field.brief keep))) c.fields :=
    Codec.reads_list fun f _ => f.reads_brief keep
  exact Component.reads (Codec.restores_text c.id).part hfields
    ((Codec.restores_bool c.showDetail).ifUnusual false _) (c.restores_maxResults.ifUnusual none _)
    (c.storeSize.restores.ifUnusual .unbounded _) (c.restores_range.ifUnusual none _)

end Component

theorem QueryKey.restores (key : QueryKey) :
  QueryKey.codec.Restores key
  := Codec.restores_via (Codec.restores_text key.id) rfl

/-- A request is read from an object with its parts in it, some of which may have been left out. -/
theorem SearchRequest.reads {r : SearchRequest} {key components incremental timeout : Option Json}
    (hkey : QueryKey.codec.Part none r.key key)
    (hcomponents : Component.codec.list.Part none r.components components)
    (hincremental : Codec.bool.Part (some true) r.incremental incremental)
    (htimeout : Codec.natural.nullable.Part (some none) r.timeout timeout) :
  SearchRequest.codec.Reads
    (.sparse [("key", key), ("components", components), ("incremental", incremental),
      ("timeoutMs", timeout)]) r
  := by
  refine Codec.reads_sparse ["key", "components", "incremental", "timeoutMs"] ?plain rfl
    (by decide) ?decode
  case plain =>
    simpa using ⟨hkey.plain, hcomponents.plain, hincremental.plain, htimeout.plain⟩
  case decode =>
    intro hmembers
    simp only [SearchRequest.codec, hmembers, List.map_cons, List.map_nil, hkey.required,
      hcomponents.required, hincremental.orElse, htimeout.orElse]
    rfl

namespace SearchRequest

theorem restores_timeout (r : SearchRequest) :
  Codec.natural.nullable.Restores r.timeout
  := Codec.restores_nullable (fun n _ => Codec.restores_natural n) nofun

/-- A request is read from the form it is given. -/
theorem restores (r : SearchRequest) :
  SearchRequest.codec.Restores r
  := SearchRequest.reads r.key.restores.part (Codec.restores_list fun c _ => c.restores).part
    (Codec.restores_bool r.incremental).part r.restores_timeout.part

/-- The form of a request that leaves out what is usual, save for the members that are kept. -/
def brief (keep : String → Bool) (r : SearchRequest) : Json :=
  .sparse [("key", some (QueryKey.codec.encode r.key)),
    ("components", some (.array (r.components.map (Component.brief keep)))),
    ("incremental", Codec.bool.ifUnusual true r.incremental (keep "incremental")),
    ("timeoutMs", Codec.natural.nullable.ifUnusual none r.timeout (keep "timeoutMs"))]

/-- A request is read from an object that leaves out any of its usual parts, in its components as
well. -/
theorem reads_brief (keep : String → Bool) (r : SearchRequest) :
  SearchRequest.codec.Reads (r.brief keep) r
  := by
  have hcomponents : Component.codec.list.Reads (.array (r.components.map (Component.brief keep)))
      r.components :=
    Codec.reads_list fun c _ => c.reads_brief keep
  exact SearchRequest.reads r.key.restores.part hcomponents
    ((Codec.restores_bool r.incremental).ifUnusual true _) (r.restores_timeout.ifUnusual none _)

end SearchRequest

/-! ### Responses -/

theorem Json.plain_tagged {kind : String} {content : Json} (plain : content.Plain) :
  (Json.tagged kind content).Plain
  := by
  apply Json.Plain.record
  intro member hmember
  rw [List.mem_singleton.mp hmember]
  apply plain

/-- A value that is no double. -/
def Val.Doubleless (v : Val) : Prop :=
  ∀ d, v ≠ .double d

/-- A value other than a double is read from the form it is given. -/
theorem Val.restores {v : Val} (doubleless : v.Doubleless) :
  Val.codec.Restores v
  := by
  cases v with
  | null => exact ⟨.text "Null", rfl⟩
  | double d => exact absurd rfl (doubleless d)
  | boolean b => exact ⟨Json.plain_tagged (.bool b), rfl⟩
  | long n =>
      have hdecode : Val.codec.decode (.tagged "Long" (Codec.integer.encode n))
          = (Codec.integer.decode (Codec.integer.encode n)).map Val.long := rfl
      use Json.plain_tagged (Codec.restores_integer n).plain
      exact hdecode.trans (congrArg (Option.map Val.long) (Codec.restores_integer n).decode)
  | text s => exact ⟨Json.plain_tagged (.text s), rfl⟩

/-- A key without doubles is read from the form it is given. -/
theorem Key.restores {key : Key} (doubleless : ∀ v ∈ key.values, v.Doubleless) :
  Key.codec.Restores key
  := Codec.restores_via (Codec.restores_list fun v hv => Val.restores (doubleless v hv)) rfl

/-- A row in whose key and slots there is no double. -/
structure ShownRow.Doubleless (row : ShownRow) : Prop where
  key : ∀ key, row.groupKey = some key → ∀ v ∈ key.values, v.Doubleless
  slots : ∀ v, some v ∈ row.values → v.Doubleless

/-- A row is read from an object with its parts in it. -/
theorem ShownRow.reads {row : ShownRow} {groupKey depth values : Option Json}
    (hgroupKey : Key.codec.nullable.Part (some none) row.groupKey groupKey)
    (hdepth : Codec.natural.Part none row.depth depth)
    (hvalues : Val.codec.nullable.list.Part none row.values values) :
  ShownRow.codec.Reads
    (.sparse [("groupKey", groupKey), ("depth", depth), ("values", values)]) row
  := by
  refine Codec.reads_sparse ["groupKey", "depth", "values"] ?plain rfl (by decide) ?decode
  case plain => simpa using ⟨hgroupKey.plain, hdepth.plain, hvalues.plain⟩
  case decode =>
    intro hmembers
    simp only [ShownRow.codec, hmembers, List.map_cons, List.map_nil, hgroupKey.orElse,
      hdepth.required, hvalues.required]
    rfl

/-- A row without doubles is read from the form it is given; an absent key and an empty one differ.
-/
theorem ShownRow.restores {row : ShownRow} (doubleless : row.Doubleless) :
  ShownRow.codec.Restores row
  := by
  have hkey : Key.codec.nullable.Restores row.groupKey :=
    Codec.restores_nullable (fun key hkey => Key.restores (doubleless.key key hkey)) nofun
  have hvalues : Val.codec.nullable.list.Restores row.values := by
    apply Codec.restores_list
    intro slot hslot
    apply Codec.restores_nullable
    · rintro v rfl
      apply Val.restores (doubleless.slots v hslot)
    · intro v
      cases v <;> nofun
  exact ShownRow.reads hkey.part (Codec.restores_natural row.depth).part hvalues.part

/-- The rows of a component are read from an object with its parts in it. -/
theorem TableResult.reads {t : TableResult} {component rows range totalResults : Option Json}
    (hcomponent : Codec.text.Part none t.component component)
    (hrows : ShownRow.codec.list.Part none t.rows rows)
    (hrange : Window.codec.Part none t.range range)
    (htotalResults : Codec.natural.Part none t.totalResults totalResults) :
  TableResult.codec.Reads
    (.sparse [("componentId", component), ("rows", rows), ("resultRange", range),
      ("totalResults", totalResults)]) t
  := by
  refine Codec.reads_sparse ["componentId", "rows", "resultRange", "totalResults"] ?plain rfl
    (by decide) ?decode
  case plain =>
    simpa using ⟨hcomponent.plain, hrows.plain, hrange.plain, htotalResults.plain⟩
  case decode =>
    intro hmembers
    simp only [TableResult.codec, hmembers, List.map_cons, List.map_nil, hcomponent.required,
      hrows.required, hrange.required, htotalResults.required]
    rfl

theorem TableResult.restores {t : TableResult} (doubleless : ∀ row ∈ t.rows, row.Doubleless) :
  TableResult.codec.Restores t
  := TableResult.reads (Codec.restores_text t.component).part
    (Codec.restores_list fun row hrow => ShownRow.restores (doubleless row hrow)).part
    t.range.restores.part (Codec.restores_natural t.totalResults).part

/-- A response is read from an object with its parts in it. -/
theorem SearchResponse.reads {r : SearchResponse} {results highlights errors complete : Option Json}
    (hresults : TableResult.codec.list.Part none r.results results)
    (hhighlights : Codec.text.list.Part none r.highlights highlights)
    (herrors : Codec.text.list.Part none r.errors errors)
    (hcomplete : Codec.bool.Part none r.complete complete) :
  SearchResponse.codec.Reads
    (.sparse [("results", results), ("highlights", highlights), ("errors", errors),
      ("complete", complete)]) r
  := by
  refine Codec.reads_sparse ["results", "highlights", "errors", "complete"] ?plain rfl
    (by decide) ?decode
  case plain =>
    simpa using ⟨hresults.plain, hhighlights.plain, herrors.plain, hcomplete.plain⟩
  case decode =>
    intro hmembers
    simp only [SearchResponse.codec, hmembers, List.map_cons, List.map_nil, hresults.required,
      hhighlights.required, herrors.required, hcomplete.required]
    rfl

/-- A response in whose rows there is no double. -/
def SearchResponse.Doubleless (r : SearchResponse) : Prop :=
  ∀ t ∈ r.results, ∀ row ∈ t.rows, row.Doubleless

/-- A response without doubles is read from the form it is given. -/
theorem SearchResponse.restores {r : SearchResponse} (doubleless : r.Doubleless) :
  SearchResponse.codec.Restores r
  := SearchResponse.reads
    (Codec.restores_list fun t ht => TableResult.restores (doubleless t ht)).part
    (Codec.restores_list fun s _ => Codec.restores_text s).part
    (Codec.restores_list fun s _ => Codec.restores_text s).part
    (Codec.restores_bool r.complete).part

section

variable {library : JsonLibrary}

/-- Whatever library writes and reads the texts, a request is read from its text and from a text
that leaves out any of what is usual. -/
theorem SearchRequest.readBy?_brief (laws : library.Lawful) (r : SearchRequest) :
  codec.readBy? library (codec.writeBy library r) = some r
    ∧ ∀ keep, codec.readBy? library (library.print (r.brief keep)) = some r
  := ⟨r.restores.readBy?_print laws, fun keep => (r.reads_brief keep).readBy?_print laws⟩

/-- Whatever library writes and reads the texts, responses without doubles are read from their
texts, which differ if they do. -/
theorem SearchResponse.readBy?_writeBy (laws : library.Lawful) {r r' : SearchResponse}
    (doubleless : r.Doubleless) (doubleless' : r'.Doubleless) :
  codec.readBy? library (codec.writeBy library r) = some r
    ∧ (codec.writeBy library r = codec.writeBy library r' → r = r')
  := by
  have hread := (SearchResponse.restores doubleless).readBy?_print laws
  have hread' := (SearchResponse.restores doubleless').readBy?_print laws
  use hread
  intro h
  apply Option.some_inj.mp
  rw [← hread, ← hread']
  apply congrArg _ h

end

/-- A request is read from its text, and from a text that leaves out any of what is usual.  So what
was read from some text is read again from each of these.  A response without doubles is read from
its text, and responses without doubles that differ have texts that differ. -/
theorem requests_and_responses_read_back :
  (∀ r : SearchRequest, SearchRequest.codec.read? (SearchRequest.codec.write r) = some r)
    ∧ (∀ text r, SearchRequest.codec.read? text = some r →
      SearchRequest.codec.read? (SearchRequest.codec.write r) = some r
        ∧ ∀ keep, SearchRequest.codec.read? (r.brief keep).print = some r)
    ∧ (∀ r : SearchResponse, r.Doubleless →
      SearchResponse.codec.read? (SearchResponse.codec.write r) = some r)
    ∧ ∀ r r' : SearchResponse, r.Doubleless → r'.Doubleless →
      SearchResponse.codec.write r = SearchResponse.codec.write r' → r = r'
  := by
  have laws := Json.library_lawful
  refine ⟨?_, ?_, ?_, ?_⟩
  · intro r
    apply (r.readBy?_brief laws).1
  · intro text r _
    apply r.readBy?_brief laws
  · intro r doubleless
    apply (SearchResponse.readBy?_writeBy laws doubleless doubleless).1
  · intro r r' doubleless doubleless'
    apply (SearchResponse.readBy?_writeBy laws doubleless doubleless').2

/-- A request that was read from a text with little in it, out of order and between blanks, and a
response in which an absent key, an empty one, an empty slot and a null value stand side by side. -/
theorem requests_and_responses_read_back_nulls :
  let text := " \x7b\"components\": [\x7b\"fields\": [\x7b\"name\": \"\\u00e9\", \"group\": 0\x7d],"
    ++ " \"componentId\": \"t\", \"requestedRange\": null\x7d], \"key\": \"q\"\x7d "
  let r := SearchRequest.ofComponents ⟨"q"⟩ [.ofFields "t" [(Field.named "é").groupedAt 0]]
  let response (key : Option Key) (slot : Option Val) : SearchResponse :=
    ⟨[⟨"t", [⟨key, 0, [slot, some (.long Int64.minValue)]⟩], ⟨0, 1⟩, 1⟩], [], ["\n\"é"], false⟩
  SearchRequest.codec.read? text = some r
    ∧ SearchRequest.codec.read? (SearchRequest.codec.write r) = some r
    ∧ SearchRequest.codec.read? (r.brief (· == "storeSize")).print = some r
    ∧ ∀ key ∈ [none, some .root], ∀ slot ∈ [none, some .null, some (.text "Null")],
      SearchResponse.codec.read? (SearchResponse.codec.write (response key slot))
          = some (response key slot)
        ∧ ∀ key' ∈ [none, some .root], ∀ slot' ∈ [none, some .null, some (.text "Null")],
          SearchResponse.codec.write (response key slot)
              = SearchResponse.codec.write (response key' slot')
            → key = key' ∧ slot = slot'
  := by
  intro text r response
  have htext : SearchRequest.codec.read? text = some r := by decide +kernel
  have doubleless : ∀ key ∈ [none, some .root], ∀ slot ∈ [none, some .null, some (.text "Null")],
      (response key slot).Doubleless := by
    intro key hkey slot hslot t ht row hrow
    obtain rfl := List.mem_singleton.mp ht
    obtain rfl := List.mem_singleton.mp hrow
    constructor
    · rintro key' rfl v hv
      obtain rfl : key' = .root := by simpa using hkey
      exact absurd hv List.not_mem_nil
    · intro v hv d hd
      rw [hd] at hv
      obtain rfl | hv := List.mem_cons.mp hv
      · simp at hslot
      · exact absurd (Option.some_inj.mp (List.mem_singleton.mp hv)) nofun
  obtain ⟨-, requests, responses, distinct⟩ := requests_and_responses_read_back
  refine ⟨htext, (requests text r htext).1, (requests text r htext).2 _, ?_⟩
  intro key hkey slot hslot
  refine ⟨responses _ (doubleless key hkey slot hslot), ?_⟩
  intro key' hkey' slot' hslot' h
  have heq := distinct _ _ (doubleless key hkey slot hslot) (doubleless key' hkey' slot' hslot') h
  simpa [response] using heq

end Collate
