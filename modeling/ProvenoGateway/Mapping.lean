/-
ProvenoGateway/Mapping.lean

What a downstream's answer becomes inside the VM, and what it is when a program
hands it back.

`Image contents v value` says that a VM value holds the JSON value `v`: a table
is read as a finite map through `contents`, an array is a table with the keys
1..n, an object a table with one string key for each member that is not null,
and a number that is not an `i64` is its decimal text.  `jsonToTable` builds
the image of every object without a null array element, and refuses every other
value.

`kept v` is the JSON value that an image of `v` spells.  It is again a value
whose images are those of `v`, and one the canonical encoding can write, so
that `tableToJson` gives `kept v` back.
-/
import Mathlib.Data.Sum.Order
import Mathlib.Order.Lattice
import ProvenoGateway.Values
import ProvenoGateway.Reference

/-! ### Null elements, and what the mapping keeps -/

namespace Json

mutual

/-- No array anywhere in the value has a null element. -/
def NoNullElement : Json → Prop
  | arr items => NoNullItems items
  | obj members => NoNullInMembers members
  | _ => True

def NoNullItems : List Json → Prop
  | [] => True
  | v :: vs => v.isNull = false ∧ v.NoNullElement ∧ NoNullItems vs

def NoNullInMembers : List (String × Json) → Prop
  | [] => True
  | (_, v) :: ms => v.NoNullElement ∧ NoNullInMembers ms

end

end Json

namespace ProvenoGateway

mutual

/-- A value after the mapping's rewrites: null members are dropped, a number
that is not an `i64` is its text, an empty array is an empty object. -/
def kept : Json → Json
  | .num n => if n.asI64.isSome then .num n else .str (String.ofList n.chars)
  | .arr [] => .obj []
  | .arr (item :: items) => .arr (kept item :: keptItems items)
  | .obj members => .obj (keptMembers members)
  | v => v

def keptItems : List Json → List Json
  | [] => []
  | v :: vs => kept v :: keptItems vs

def keptMembers : List (String × Json) → List (String × Json)
  | [] => []
  | (key, v) :: ms => if v.isNull then keptMembers ms else (key, kept v) :: keptMembers ms

end

/-! ### Tables as finite maps -/

/-- Integer keys come before string keys. -/
def LuaKey.rank : LuaKey → Int ⊕ₗ String
  | .integer i => Sum.inlₗ i
  | .string s => Sum.inrₗ s

theorem LuaKey.rank_injective : Function.Injective LuaKey.rank := by
  intro a b h
  cases a <;> cases b <;> simp_all [LuaKey.rank]

instance LuaKey.linearOrder : LinearOrder LuaKey := LinearOrder.lift' LuaKey.rank rank_injective

/-- A key of an array or of an object. -/
def LuaKey.Ordinary : LuaKey → Prop
  | .string _ => True
  | .integer i => 0 < i

/-- The entries of an array that starts at `i`. -/
def numbered {α : Type} (i : Int) : List α → List (LuaKey × α)
  | [] => []
  | v :: vs => (.integer i, v) :: numbered (i + 1) vs

/-- The entries of an object. -/
def named {α : Type} (fields : List (String × α)) : List (LuaKey × α) :=
  fields.map fun f => (.string f.1, f.2)

section Image

variable {deps : Deps} (contents : deps.Table → OrdMap LuaKey deps.Value)

mutual

/-- The VM value holds the JSON value. -/
def Image : Json → deps.Value → Prop
  | .null, _ => False
  | .bool b, value => value = deps.boolean b
  | .num n, value =>
      match n.asI64 with
      | some i => value = deps.integer i
      | none => value = deps.string (String.ofList n.chars)
  | .str s, value => value = deps.string s
  | .arr items, value => ∃ t values, value = deps.table t ∧ ImageItems items values ∧
      contents t = OrdMap.ofList (numbered 1 values)
  | .obj members, value => ∃ t fields, value = deps.table t ∧ ImageMembers members fields ∧
      contents t = OrdMap.ofList (named fields)

/-- Item by item. -/
def ImageItems : List Json → List deps.Value → Prop
  | [], values => values = []
  | v :: vs, values => ∃ value rest, values = value :: rest ∧ Image v value ∧ ImageItems vs rest

/-- Member by member, but for the null ones. -/
def ImageMembers : List (String × Json) → List (String × deps.Value) → Prop
  | [], fields => fields = []
  | (key, v) :: ms, fields =>
      if v.isNull then ImageMembers ms fields
      else ∃ value rest, fields = (key, value) :: rest ∧ Image v value ∧ ImageMembers ms rest

end

theorem image_integer {n : JsonNumber} {i : Int} {value : deps.Value} (h : n.asI64 = some i) :
    Image contents (.num n) value ↔ value = deps.integer i := by
  rw [Image, h]

theorem image_decimal {n : JsonNumber} {value : deps.Value} (h : n.asI64 = none) :
    Image contents (.num n) value ↔ value = deps.string (String.ofList n.chars) := by
  rw [Image, h]

theorem imageMembers_null {key : String} {v : Json} {ms : List (String × Json)}
    {fields : List (String × deps.Value)} (h : v.isNull = true) :
    ImageMembers contents ((key, v) :: ms) fields ↔ ImageMembers contents ms fields := by
  rw [ImageMembers, if_pos h]

theorem imageMembers_cons {key : String} {v : Json} {ms : List (String × Json)}
    {fields : List (String × deps.Value)} (h : v.isNull = false) :
    ImageMembers contents ((key, v) :: ms) fields ↔
      ∃ value rest, fields = (key, value) :: rest ∧ Image contents v value ∧
        ImageMembers contents ms rest := by
  rw [ImageMembers, h, if_neg Bool.false_ne_true]

/-- A value that a table can hold. -/
inductive Storable : deps.Value → Prop
  | boolean (b : Bool) : Storable (deps.boolean b)
  | integer (i : Int) : Storable (deps.integer i)
  | string (s : String) : Storable (deps.string s)
  | table (t : deps.Table) : Storable (deps.table t)

end Image

mutual

/-- The documents the canonical encoding writes: `i64` numbers, no null, no
empty array, members in the order of their keys. -/
def Canonical : Json → Prop
  | .null => False
  | .num n => n.asI64.isSome = true
  | .arr items => items ≠ [] ∧ CanonicalItems items
  | .obj members => (members.Pairwise fun a b => a.1 < b.1) ∧ CanonicalMembers members
  | _ => True

def CanonicalItems : List Json → Prop
  | [] => True
  | v :: vs => Canonical v ∧ CanonicalItems vs

def CanonicalMembers : List (String × Json) → Prop
  | [] => True
  | (_, v) :: ms => Canonical v ∧ CanonicalMembers ms

end

/-- Core's tables: finite maps in which every string and every positive integer
can be set, and whose canonical encoding, when there is one, is the text of the
document the table holds. -/
structure CoreTables (deps : Deps) where
  contents : deps.Table → OrdMap LuaKey deps.Value
  newTable : contents deps.newTable = OrdMap.empty
  rawset : ∀ t (key : LuaKey) (value : deps.Value), key.Ordinary → Storable value →
    ∃ t', deps.rawset t key value = .ok t' ∧ contents t' = (contents t).insert key value
  canonical : ∀ t text doc, deps.canonicalSerializeTable t = .ok text → Canonical doc →
    Image contents doc (deps.table t) → Json.parse text = some doc

/-! ### Building a table -/

section Build

variable {deps : Deps} (C : CoreTables deps)

theorem setKey_ok (t : deps.Table) (key : LuaKey) {value : deps.Value} (hk : key.Ordinary)
    (hv : Storable value) :
    ∃ t', setKey deps t key value = .ok t' ∧
      C.contents t' = (C.contents t).insert key value := by
  obtain ⟨t', hset, hc⟩ := C.rawset t key value hk hv
  refine ⟨t', ?_, hc⟩
  rw [setKey, hset]
  rfl

mutual

/-- A value that is not null and has no null element has an image. -/
theorem toLua_ok : (v : Json) → v.isNull = false → v.NoNullElement →
    ∃ value, toLua deps v = .ok value ∧ Storable value ∧ Image C.contents v value
  | .null, h, _ => nomatch h
  | .bool b, _, _ => ⟨deps.boolean b, rfl, .boolean b, rfl⟩
  | .str s, _, _ => ⟨deps.string s, rfl, .string s, rfl⟩
  | .num n, _, _ => by
    rcases h : n.asI64 with - | i
    · refine ⟨deps.string (String.ofList n.chars), ?_, .string _, (image_decimal _ h).mpr rfl⟩
      rw [toLua, h]
    · refine ⟨deps.integer i, ?_, .integer i, (image_integer _ h).mpr rfl⟩
      rw [toLua, h]
  | .arr items, _, hn => by
    obtain ⟨t, values, ht, himage, hc⟩ := arrayToTable_ok items hn 1 Int.one_pos deps.newTable
    refine ⟨deps.table t, by rw [toLua, ht]; rfl, .table t, t, values, rfl, himage, ?_⟩
    rw [hc, C.newTable]
    rfl
  | .obj members, _, hn => by
    obtain ⟨t, fields, ht, himage, hc⟩ := objectToTable_ok members hn deps.newTable
    refine ⟨deps.table t, by rw [toLua, ht]; rfl, .table t, t, fields, rfl, himage, ?_⟩
    rw [hc, C.newTable]
    rfl

/-- Members go in under their keys, on top of what the table holds. -/
theorem objectToTable_ok : (ms : List (String × Json)) → Json.NoNullInMembers ms →
    (t : deps.Table) → ∃ t' fields, objectToTable deps ms t = .ok t' ∧
      ImageMembers C.contents ms fields ∧
      C.contents t' = (named fields).foldl (fun m e => m.insert e.1 e.2) (C.contents t)
  | [], _, t => ⟨t, [], rfl, rfl, rfl⟩
  | (key, v) :: ms, hn, t => by
    rcases hnull : v.isNull with - | -
    · obtain ⟨value, hv, hs, himage⟩ := toLua_ok v hnull hn.1
      obtain ⟨t₁, ht₁, hc₁⟩ := setKey_ok C t (.string key) trivial hs
      obtain ⟨t', fields, ht', hrest, hc'⟩ := objectToTable_ok ms hn.2 t₁
      refine ⟨t', (key, value) :: fields, ?_,
        (imageMembers_cons _ hnull).mpr ⟨value, fields, rfl, himage, hrest⟩, ?_⟩
      · rw [objectToTable, hnull, if_neg Bool.false_ne_true, hv]
        show (setKey deps t (.string key) value).bind _ = _
        rw [ht₁]
        exact ht'
      · rw [hc', hc₁]
        rfl
    · obtain ⟨t', fields, ht', hrest, hc'⟩ := objectToTable_ok ms hn.2 t
      refine ⟨t', fields, ?_, (imageMembers_null _ hnull).mpr hrest, hc'⟩
      rw [objectToTable, hnull, if_pos rfl, ht']

/-- Items go in under the keys from `i` on. -/
theorem arrayToTable_ok : (vs : List Json) → Json.NoNullItems vs → (i : Int) → 0 < i →
    (t : deps.Table) → ∃ t' values, arrayToTable deps i vs t = .ok t' ∧
      ImageItems C.contents vs values ∧
      C.contents t' = (numbered i values).foldl (fun m e => m.insert e.1 e.2) (C.contents t)
  | [], _, _, _, t => ⟨t, [], rfl, rfl, rfl⟩
  | v :: vs, hn, i, hi, t => by
    obtain ⟨value, hv, hs, himage⟩ := toLua_ok v hn.1 hn.2.1
    obtain ⟨t₁, ht₁, hc₁⟩ := setKey_ok C t (.integer i) hi hs
    obtain ⟨t', values, ht', hrest, hc'⟩ :=
      arrayToTable_ok vs hn.2.2 (i + 1) (by omega) t₁
    refine ⟨t', value :: values, ?_, ⟨value, values, rfl, himage, hrest⟩, ?_⟩
    · rw [arrayToTable, hn.1, if_neg Bool.false_ne_true, hv]
      show (setKey deps t (.integer i) value).bind _ = _
      rw [ht₁]
      exact ht'
    · rw [hc', hc₁]
      rfl

end

end Build

section Refuse

variable {deps : Deps}

mutual

/-- What goes into a table has no null element. -/
theorem noNullElement_of_toLua : (v : Json) → {value : deps.Value} →
    toLua deps v = .ok value → v.NoNullElement
  | .null, _, _ | .bool _, _, _ | .str _, _, _ | .num _, _, _ => trivial
  | .arr items, value, h => by
    rw [toLua] at h
    rcases ht : arrayToTable deps 1 items deps.newTable with e | t
    · rw [ht] at h
      cases h
    · exact noNullItems_of_arrayToTable items ht
  | .obj members, value, h => by
    rw [toLua] at h
    rcases ht : objectToTable deps members deps.newTable with e | t
    · rw [ht] at h
      cases h
    · exact noNullInMembers_of_objectToTable members ht

theorem noNullInMembers_of_objectToTable : (ms : List (String × Json)) → {t t' : deps.Table} →
    objectToTable deps ms t = .ok t' → Json.NoNullInMembers ms
  | [], _, _, _ => trivial
  | (key, v) :: ms, t, t', h => by
    rw [objectToTable] at h
    rcases hnull : v.isNull with - | -
    · rw [hnull, if_neg Bool.false_ne_true] at h
      obtain ⟨value, hv, h⟩ := bind_eq_ok.mp h
      obtain ⟨t₁, -, h⟩ := bind_eq_ok.mp h
      exact ⟨noNullElement_of_toLua v hv, noNullInMembers_of_objectToTable ms h⟩
    · rw [hnull, if_pos rfl] at h
      refine ⟨?_, noNullInMembers_of_objectToTable ms h⟩
      cases v with
      | null => trivial
      | _ => cases hnull

theorem noNullItems_of_arrayToTable : (vs : List Json) → {i : Int} → {t t' : deps.Table} →
    arrayToTable deps i vs t = .ok t' → Json.NoNullItems vs
  | [], _, _, _, _ => trivial
  | v :: vs, i, t, t', h => by
    rw [arrayToTable] at h
    rcases hnull : v.isNull with - | -
    · rw [hnull, if_neg Bool.false_ne_true] at h
      obtain ⟨value, hv, h⟩ := bind_eq_ok.mp h
      obtain ⟨t₁, -, h⟩ := bind_eq_ok.mp h
      exact ⟨hnull, noNullElement_of_toLua v hv, noNullItems_of_arrayToTable vs h⟩
    · rw [hnull, if_pos rfl] at h
      cases h

end

end Refuse

/-! ### Handing it back -/

theorem keptMembers_eq (ms : List (String × Json)) :
    keptMembers ms = (ms.filter fun m => !m.2.isNull).map fun m => (m.1, kept m.2) := by
  induction ms with
  | nil => rfl
  | cons m ms ih =>
    obtain ⟨key, v⟩ := m
    rw [keptMembers, ih, List.filter_cons]
    cases v.isNull <;> rfl

mutual

/-- The canonical encoding can write what the mapping keeps. -/
theorem canonical_kept : (v : Json) → v.isNull = false → v.Ordered → v.NoNullElement →
    Canonical (kept v)
  | .null, h, _, _ => nomatch h
  | .bool _, _, _, _ | .str _, _, _, _ => trivial
  | .num n, _, _, _ => by
    rcases h : n.asI64.isSome with - | -
    · rw [kept, h, if_neg Bool.false_ne_true]
      trivial
    · rw [kept, h, if_pos rfl]
      exact h
  | .arr [], _, _, _ => ⟨List.Pairwise.nil, trivial⟩
  | .arr (v :: vs), _, ho, hn =>
      ⟨List.cons_ne_nil _ _, canonical_kept v hn.1 ho.1 hn.2.1, canonical_keptItems vs ho.2 hn.2.2⟩
  | .obj members, _, ho, hn => by
    refine ⟨?_, canonical_keptMembers members ho.2 hn⟩
    rw [keptMembers_eq]
    exact List.Pairwise.map _ (fun _ _ h => h) (ho.1.filter _)

theorem canonical_keptItems : (vs : List Json) → Json.OrderedItems vs → Json.NoNullItems vs →
    CanonicalItems (keptItems vs)
  | [], _, _ => trivial
  | v :: vs, ho, hn =>
      ⟨canonical_kept v hn.1 ho.1 hn.2.1, canonical_keptItems vs ho.2 hn.2.2⟩

theorem canonical_keptMembers : (ms : List (String × Json)) → Json.OrderedMembers ms →
    Json.NoNullInMembers ms → CanonicalMembers (keptMembers ms)
  | [], _, _ => trivial
  | (key, v) :: ms, ho, hn => by
    have hrest := canonical_keptMembers ms ho.2 hn.2
    rcases hnull : v.isNull with - | -
    · rw [keptMembers, hnull, if_neg Bool.false_ne_true]
      exact ⟨canonical_kept v hnull ho.1 hn.1, hrest⟩
    · rw [keptMembers, hnull, if_pos rfl]
      exact hrest

end

theorem isNull_kept {v : Json} (h : v.isNull = false) : (kept v).isNull = false := by
  rcases v with - | b | n | s | items | members
  · cases h
  · rfl
  · show Json.isNull (if n.asI64.isSome then .num n else .str (String.ofList n.chars)) = false
    split <;> rfl
  · rfl
  · cases items <;> rfl
  · rfl

section HandBack

variable {deps : Deps} {contents : deps.Table → OrdMap LuaKey deps.Value}

mutual

/-- The rewrites do not show in the VM. -/
theorem image_kept : (v : Json) → {value : deps.Value} → Image contents v value →
    Image contents (kept v) value
  | .null, _, h => h.elim
  | .bool _, _, h | .str _, _, h => h
  | .num n, value, h => by
    rcases hi : n.asI64 with - | i
    · rw [kept, hi]
      exact (image_decimal _ hi).mp h
    · rw [kept, hi]
      exact h
  | .arr [], _, ⟨t, values, hv, himage, hc⟩ => by
    cases himage
    exact ⟨t, [], hv, rfl, hc⟩
  | .arr (v :: vs), _, ⟨t, values, hv, ⟨value, rest, hvalues, himage, hrest⟩, hc⟩ =>
      ⟨t, values, hv, ⟨value, rest, hvalues, image_kept v himage, imageItems_kept vs hrest⟩, hc⟩
  | .obj members, _, ⟨t, fields, hv, himage, hc⟩ =>
      ⟨t, fields, hv, imageMembers_kept members himage, hc⟩

theorem imageItems_kept : (vs : List Json) → {values : List deps.Value} →
    ImageItems contents vs values → ImageItems contents (keptItems vs) values
  | [], _, h => h
  | v :: vs, _, ⟨value, rest, hvalues, himage, hrest⟩ =>
      ⟨value, rest, hvalues, image_kept v himage, imageItems_kept vs hrest⟩

theorem imageMembers_kept : (ms : List (String × Json)) → {fields : List (String × deps.Value)} →
    ImageMembers contents ms fields → ImageMembers contents (keptMembers ms) fields
  | [], _, h => h
  | (key, v) :: ms, fields, h => by
    rcases hnull : v.isNull with - | -
    · obtain ⟨value, rest, hfields, himage, hrest⟩ := (imageMembers_cons _ hnull).mp h
      rw [keptMembers, hnull, if_neg Bool.false_ne_true]
      exact (imageMembers_cons _ (isNull_kept hnull)).mpr
        ⟨value, rest, hfields, image_kept v himage, imageMembers_kept ms hrest⟩
    · rw [keptMembers, hnull, if_pos rfl]
      exact imageMembers_kept ms ((imageMembers_null _ hnull).mp h)

end

end HandBack

mutual

/-- Printing loses nothing of a canonical document. -/
theorem Canonical.exact : (doc : Json) → Canonical doc → doc.Exact
  | .null, h => h.elim
  | .bool _, _ | .str _, _ | .num (.posInt _), _ | .num (.negInt _), _ => trivial
  | .num (.float _), h => nomatch h
  | .arr items, h => CanonicalItems.exact items h.2
  | .obj members, h => CanonicalMembers.exact members h.2

theorem CanonicalItems.exact : (vs : List Json) → CanonicalItems vs → Json.ExactItems vs
  | [], _ => trivial
  | v :: vs, h => ⟨Canonical.exact v h.1, CanonicalItems.exact vs h.2⟩

theorem CanonicalMembers.exact : (ms : List (String × Json)) → CanonicalMembers ms →
    Json.ExactMembers ms
  | [], _ => trivial
  | (_, v) :: ms, h => ⟨Canonical.exact v h.1, CanonicalMembers.exact ms h.2⟩

end

mutual

theorem Canonical.ordered : (doc : Json) → Canonical doc → doc.Ordered
  | .null, h => h.elim
  | .bool _, _ | .str _, _ | .num _, _ => trivial
  | .arr items, h => CanonicalItems.ordered items h.2
  | .obj members, h => ⟨h.1, CanonicalMembers.ordered members h.2⟩

theorem CanonicalItems.ordered : (vs : List Json) → CanonicalItems vs → Json.OrderedItems vs
  | [], _ => trivial
  | v :: vs, h => ⟨Canonical.ordered v h.1, CanonicalItems.ordered vs h.2⟩

theorem CanonicalMembers.ordered : (ms : List (String × Json)) → CanonicalMembers ms →
    Json.OrderedMembers ms
  | [], _ => trivial
  | (_, v) :: ms, h => ⟨Canonical.ordered v h.1, CanonicalMembers.ordered ms h.2⟩

end

theorem lt_of_mem_numbered {α : Type} {i : Int} {vs : List α} {e : LuaKey × α} {j : Int}
    (hj : j < i) (h : e ∈ numbered i vs) : LuaKey.integer j < e.1 := by
  induction vs generalizing i with
  | nil => cases h
  | cons v vs ih =>
    rcases List.mem_cons.mp h with rfl | h
    · exact Sum.Lex.inl_lt_inl_iff.mpr hj
    · exact ih (by omega) h

theorem numbered_sorted {α : Type} (i : Int) (vs : List α) :
    (numbered i vs).Pairwise fun a b => a.1 < b.1 := by
  induction vs generalizing i with
  | nil => exact List.Pairwise.nil
  | cons v vs ih =>
    exact List.pairwise_cons.mpr ⟨fun e he => lt_of_mem_numbered (by omega) he, ih (i + 1)⟩

theorem named_sorted {α : Type} {fields : List (String × α)}
    (h : fields.Pairwise fun a b => a.1 < b.1) :
    (named fields).Pairwise fun a b => a.1 < b.1 :=
  List.Pairwise.map _ (fun _ _ hab => Sum.Lex.inr_lt_inr_iff.mpr hab) h

theorem numbered_map {α β : Type} (f : α → β) (i : Int) (vs : List α) :
    ((numbered i vs).map fun e => (e.1, f e.2)) = numbered i (vs.map f) := by
  induction vs generalizing i with
  | nil => rfl
  | cons v vs ih => rw [numbered, List.map_cons, ih]; rfl

theorem named_map {α β : Type} (f : α → β) (fields : List (String × α)) :
    ((named fields).map fun e => (e.1, f e.2)) = named (fields.map fun e => (e.1, f e.2)) := by
  simp [named]

/-! ### A core with nested tables

A table is the list of its assignments; the canonical encoding has a text for a
table whose keys are 1..n or strings. -/

namespace Reference

inductive Nested
  | nil
  | boolean (b : Bool)
  | integer (i : Int)
  | string (s : String)
  | table (assignments : List (LuaKey × Nested))

/-- The number of an `i64`. -/
def numberOf (i : Int) : Option JsonNumber :=
  if h : i < 0 ∧ -2 ^ 63 ≤ i then some (.negInt ⟨i, h.2, h.1⟩)
  else if i < 2 ^ 63 then some (.posInt (UInt64.ofNat i.toNat))
  else none

def itemsOf (i : Int) : List (LuaKey × Option Json) → Option (List Json)
  | [] => some []
  | (.integer j, some d) :: rest => if j = i then (itemsOf (i + 1) rest).map (d :: ·) else none
  | _ => none

def membersOf : List (LuaKey × Option Json) → Option (List (String × Json))
  | [] => some []
  | (.string s, some d) :: rest => (membersOf rest).map ((s, d) :: ·)
  | _ => none

/-- The document of a table, from the shape of its keys. -/
def documentOf : List (LuaKey × Option Json) → Option Json
  | [] => some (.obj [])
  | (.integer j, d) :: rest => (itemsOf 1 ((.integer j, d) :: rest)).map .arr
  | (.string s, d) :: rest => (membersOf ((.string s, d) :: rest)).map .obj

mutual

def Nested.toJson : Nested → Option Json
  | .nil => none
  | .boolean b => some (.bool b)
  | .integer i => (numberOf i).map .num
  | .string s => some (.str s)
  | .table assignments => documentOf (OrdMap.ofList (valuesToJson assignments)).entries

def valuesToJson : List (LuaKey × Nested) → List (LuaKey × Option Json)
  | [] => []
  | (key, value) :: rest => (key, value.toJson) :: valuesToJson rest

end

/-- The canonical encoding of a value. -/
def Nested.text (value : Nested) : Except Unit String :=
  match value.toJson with
  | some d => .ok d.print
  | none => .error ()

/-- The core; its VM runs nothing. -/
def nestedCore (double : String → Option String) : Deps :=
  { reference with
    Value := Nested
    Table := List (LuaKey × Nested)
    nil := .nil
    boolean := .boolean
    integer := .integer
    string := .string
    table := .table
    asString
      | .string s => some s.toUTF8
      | _ => none
    valueDebug _ := "value"
    newTable := []
    rawset t key value := .ok (t ++ [(key, value)])
    CanonError := Unit
    canonicalSerialize := Nested.text
    canonicalSerializeTable t := (Nested.table t).text
    canonErrorDebug _ := "CanonError"
    canonErrorToVm _ := .typeError "no canonical encoding"
    execute _ _ := .done ⟨.ok .nil, 1, 1⟩
    argsCanonical t := ((Nested.table t).text.toOption.getD "").toUTF8
    tapeCall tape _ _ := (.error "divergence", tape)
    double }

theorem numberOf_eq {n : JsonNumber} {i : Int} (h : n.asI64 = some i) : numberOf i = some n := by
  rcases n with n | i' | text
  · rw [JsonNumber.asI64] at h
    split_ifs at h with hn
    cases h
    rw [numberOf, dif_neg (by omega), if_pos (by omega), Int.toNat_natCast, UInt64.ofNat_toNat]
  · cases h
    rw [numberOf, dif_pos ⟨i'.neg, i'.lo⟩]
  · cases h

theorem valuesToJson_eq (l : List (LuaKey × Nested)) :
    valuesToJson l = l.map fun e => (e.1, e.2.toJson) := by
  induction l with
  | nil => rfl
  | cons e rest ih => rw [valuesToJson, ih]; rfl

theorem itemsOf_numbered (i : Int) (docs : List Json) :
    itemsOf i (numbered i (docs.map some)) = some docs := by
  induction docs generalizing i with
  | nil => rfl
  | cons d docs ih =>
    show (if i = i then (itemsOf (i + 1) (numbered (i + 1) (docs.map some))).map (d :: ·) else none) =
      some (d :: docs)
    rw [if_pos rfl, ih]
    rfl

theorem membersOf_named (members : List (String × Json)) :
    membersOf (named (members.map fun m => (m.1, some m.2))) = some members := by
  induction members with
  | nil => rfl
  | cons m members ih =>
    show (membersOf (named (members.map fun m => (m.1, some m.2)))).map ((m.1, m.2) :: ·) = _
    rw [ih]
    rfl

/-- The entries that the encoding sees. -/
theorem ofList_valuesToJson {l l' : List (LuaKey × Nested)} (h : OrdMap.ofList l = OrdMap.ofList l') :
    OrdMap.ofList (valuesToJson l) = OrdMap.ofList (l'.map fun e => (e.1, e.2.toJson)) := by
  rw [valuesToJson_eq, ← OrdMap.map_ofList, h, OrdMap.map_ofList]

/-- A table with the keys 1..n is written as an array. -/
theorem toJson_array {t : List (LuaKey × Nested)} {values : List Nested} {d : Json} {ds : List Json}
    (hc : OrdMap.ofList t = OrdMap.ofList (numbered 1 values))
    (hitems : values.map Nested.toJson = (d :: ds).map some) :
    (Nested.table t).toJson = some (.arr (d :: ds)) := by
  have hentries : (OrdMap.ofList (valuesToJson t)).entries = numbered 1 ((d :: ds).map some) := by
    rw [ofList_valuesToJson hc, numbered_map, hitems, OrdMap.entries_ofList (numbered_sorted 1 _)]
  show documentOf (OrdMap.ofList (valuesToJson t)).entries = some (.arr (d :: ds))
  rw [hentries]
  show (itemsOf 1 (numbered 1 ((d :: ds).map some))).map Json.arr = _
  rw [itemsOf_numbered]
  rfl

/-- A table with string keys is written as an object, in the order of the keys. -/
theorem toJson_object {t : List (LuaKey × Nested)} {fields : List (String × Nested)}
    {members : List (String × Json)} (hc : OrdMap.ofList t = OrdMap.ofList (named fields))
    (hmembers : (fields.map fun f => (f.1, f.2.toJson)) = members.map fun m => (m.1, some m.2))
    (hsorted : members.Pairwise fun a b => a.1 < b.1) :
    (Nested.table t).toJson = some (.obj members) := by
  have hsorted : (members.map fun m => (m.1, some m.2)).Pairwise fun a b => a.1 < b.1 :=
    List.Pairwise.map _ (fun _ _ h => h) hsorted
  have hentries : (OrdMap.ofList (valuesToJson t)).entries =
      named (members.map fun m => (m.1, some m.2)) := by
    rw [ofList_valuesToJson hc, named_map, hmembers, OrdMap.entries_ofList (named_sorted hsorted)]
  show documentOf (OrdMap.ofList (valuesToJson t)).entries = some (.obj members)
  rw [hentries]
  rcases members with - | ⟨m, members⟩
  · rfl
  · show (membersOf (named ((m :: members).map fun m => (m.1, some m.2)))).map Json.obj = _
    rw [membersOf_named]
    rfl

section Encode

variable {double : String → Option String}

mutual

/-- The canonical encoding of an image writes the document. -/
theorem toJson_image : (doc : Json) → Canonical doc → {value : Nested} →
    @Image (nestedCore double) OrdMap.ofList doc value → value.toJson = some doc
  | .null, h, _, _ => h.elim
  | .bool b, _, _, h => by
    cases h
    rfl
  | .str s, _, _, h => by
    cases h
    rfl
  | .num n, h, value, himage => by
    obtain ⟨i, hi⟩ := Option.isSome_iff_exists.mp h
    obtain rfl : value = .integer i := (image_integer _ hi).mp himage
    rw [Nested.toJson, numberOf_eq hi]
    rfl
  | .arr [], h, _, _ => absurd rfl h.1
  | .arr (d :: ds), h, _, ⟨t, values, hv, himage, hc⟩ => by
    obtain rfl := hv
    exact toJson_array hc (toJson_items (d :: ds) h.2 himage)
  | .obj members, h, _, ⟨t, fields, hv, himage, hc⟩ => by
    obtain rfl := hv
    exact toJson_object hc (toJson_members members h.2 himage) h.1

theorem toJson_items : (ds : List Json) → CanonicalItems ds → {values : List Nested} →
    @ImageItems (nestedCore double) OrdMap.ofList ds values →
    values.map Nested.toJson = ds.map some
  | [], _, _, h => by
    cases h
    rfl
  | d :: ds, h, _, ⟨value, rest, hvalues, himage, hrest⟩ => by
    obtain rfl := hvalues
    exact congrArg₂ List.cons (toJson_image d h.1 himage) (toJson_items ds h.2 hrest)

theorem toJson_members : (ms : List (String × Json)) → CanonicalMembers ms →
    {fields : List (String × Nested)} →
    @ImageMembers (nestedCore double) OrdMap.ofList ms fields →
    (fields.map fun f => (f.1, f.2.toJson)) = ms.map fun m => (m.1, some m.2)
  | [], _, _, h => by
    cases h
    rfl
  | (key, d) :: ms, h, fields, himage => by
    have hnull : d.isNull = false := by
      cases d with
      | null => exact h.1.elim
      | _ => rfl
    obtain ⟨value, rest, rfl, himage, hrest⟩ := (imageMembers_cons _ hnull).mp himage
    exact congrArg₂ List.cons (congrArg (Prod.mk key) (toJson_image d h.1 himage))
      (toJson_members ms h.2 hrest)

end

/-- The core keeps what is documented of core. -/
def nestedTables (double : String → Option String) : CoreTables (nestedCore double) where
  contents := OrdMap.ofList
  newTable := rfl
  rawset t key value _ _ := by
    refine ⟨List.append t [(key, value)], rfl, ?_⟩
    exact List.foldl_append
  canonical t text doc htext hdoc himage := by
    have hjson : (Nested.table t).toJson = some doc := toJson_image doc hdoc himage
    have htext : Nested.text (.table t) = .ok text := htext
    rw [Nested.text, hjson] at htext
    obtain rfl : doc.print = text := Except.ok.inj htext
    exact Json.parse_print doc hdoc.exact

end Encode

end Reference

section Examples

open Reference

end Examples

end ProvenoGateway
