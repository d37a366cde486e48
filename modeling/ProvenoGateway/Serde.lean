/-
ProvenoGateway/Serde.lean

Derived readers of typed values, as a library of its own.

A struct is read from an object or from an array.  In an object each field is
looked up by its name: a field written twice is an error, one that is not
there is left to the field (`required`, `optional`, `defaulted`), a member of
no field is ignored by `struct` and refused by `structStrict`.  In an array
the fields are the items, in order.  An enumeration with an internal tag is
the tag and the rest of the object or array (`tagged`).
-/
import Mathlib.Data.List.Basic
import ProvenoGateway.JsonValue

namespace Serde

variable {α : Type}

/-! ### Readers -/

/-- A value that may be null. -/
def option (read : Json → Option α) : Json → Option (Option α)
  | .null => some none
  | v => (read v).map some

/-- A sequence. -/
def seq (read : Json → Option α) : Json → Option (List α)
  | .arr items => items.mapM read
  | _ => none

/-- The member of one name: an error if there are several. -/
def member (members : List (String × Json)) (name : String) : Option (Option Json) :=
  match members.filter (·.1 == name) with
  | [] => some none
  | [m] => some (some m.2)
  | _ => none

/-- The fields of a struct, in the order of `names`. -/
def struct (names : List String) : Json → Option (List (Option Json))
  | .obj members => names.mapM (member members)
  | .arr items => if items.length = names.length then some (items.map some) else none
  | _ => none

/-- The same for a struct that denies unknown fields and has defaults. -/
def structStrict (names : List String) : Json → Option (List (Option Json))
  | .obj members =>
      if members.all (names.contains ·.1) then names.mapM (member members) else none
  | .arr items =>
      if items.length ≤ names.length then
        some (items.map some ++ List.replicate (names.length - items.length) none)
      else none
  | _ => none

def required (read : Json → Option α) : Option Json → Option α
  | some v => read v
  | none => none

def optional (read : Json → Option α) : Option Json → Option (Option α)
  | some v => option read v
  | none => some none

def defaulted (read : Json → Option α) (default : α) : Option Json → Option α
  | some v => read v
  | none => some default

/-- An internally tagged value: the tag, and what is left without it. -/
def tagged (tag : String) : Json → Option (String × Json)
  | .obj members =>
      match member members tag with
      | some (some (.str t)) => some (t, .obj (members.filter (·.1 != tag)))
      | _ => none
  | .arr (.str t :: items) => some (t, .arr items)
  | _ => none

/-! ### Writers -/

/-- An optional string: null if there is none. -/
def optStr : Option String → Json
  | some s => .str s
  | none => .null

/-- An unsigned 64-bit integer. -/
def num (n : UInt64) : Json := .num (.posInt n)

@[simp] theorem asU64_num (n : UInt64) : (num n).asU64 = some n := rfl

@[simp] theorem asStr_str (s : String) : (Json.str s).asStr = some s := rfl

@[simp] theorem option_optStr (s : Option String) : option Json.asStr (optStr s) = some s := by
  cases s <;> rfl

@[simp] theorem exact_num (n : UInt64) : (num n).Exact := trivial

@[simp] theorem exact_str (s : String) : (Json.str s).Exact := trivial

@[simp] theorem exact_optStr (s : Option String) : (optStr s).Exact := by
  cases s <;> trivial

@[simp] theorem depth_num (n : UInt64) : (num n).depth = 0 := rfl

@[simp] theorem depth_str (s : String) : (Json.str s).depth = 0 := rfl

@[simp] theorem depth_optStr (s : Option String) : (optStr s).depth = 0 := by
  cases s <;> rfl

@[simp] theorem required_some (read : Json → Option α) (v : Json) :
    required read (some v) = read v := rfl

@[simp] theorem optional_some (read : Json → Option α) (v : Json) :
    optional read (some v) = option read v := rfl

@[simp] theorem defaulted_some (read : Json → Option α) (d : α) (v : Json) :
    defaulted read d (some v) = read v := rfl

/-- A sequence of values that each read back reads back. -/
theorem seq_map {β : Type} {read : Json → Option β} {write : β → Json} {xs : List β}
    (h : ∀ x ∈ xs, read (write x) = some x) : seq read (.arr (xs.map write)) = some xs := by
  induction xs with
  | nil => rfl
  | cons x xs ih =>
    have hx := h x List.mem_cons_self
    have hxs : List.mapM read (xs.map write) = some xs :=
      ih fun y hy => h y (List.mem_cons_of_mem _ hy)
    simp [seq, hx, hxs]

/-! ### What the order of members does -/

/-- Looking up a member does not depend on the order. -/
theorem member_perm {ms ms' : List (String × Json)} (h : ms.Perm ms') (name : String) :
    member ms name = member ms' name := by
  have hf := h.filter (·.1 == name)
  unfold member
  generalize hl : ms.filter (·.1 == name) = l at hf
  generalize hl' : ms'.filter (·.1 == name) = l' at hf
  match l, l', hf with
  | [], [], _ => rfl
  | [], _ :: _, hf => exact absurd hf.symm (by simp)
  | [a], [b], hf => rw [List.perm_singleton.mp hf.symm]
  | [a], [], hf => exact absurd hf (by simp)
  | [a], b :: c :: l, hf => exact absurd hf.length_eq (by simp)
  | a :: b :: l, [], hf => exact absurd hf (by simp)
  | a :: b :: l, [c], hf => exact absurd hf.length_eq (by simp)
  | a :: b :: l, c :: d :: l', hf => rfl

theorem struct_perm {ms ms' : List (String × Json)} (h : ms.Perm ms') (names : List String) :
    struct names (.obj ms) = struct names (.obj ms') := by
  have hm : member ms = member ms' := funext (member_perm h)
  simp only [struct, hm]

/-! ### What a successful read says -/

theorem asStr_eq_some {v : Json} {s : String} (h : v.asStr = some s) : v = .str s := by
  cases v <;> simp_all [Json.asStr]

theorem asU64_eq_some {v : Json} {n : UInt64} (h : v.asU64 = some n) : v = num n := by
  cases v with
  | num m => cases m <;> simp_all [Json.asU64, JsonNumber.asU64, num]
  | _ => simp [Json.asU64] at h

theorem required_asStr {field : Option Json} {s : String}
    (h : required Json.asStr field = some s) : field = some (.str s) := by
  cases field with
  | none => cases h
  | some v => rw [asStr_eq_some h]

theorem required_asU64 {field : Option Json} {n : UInt64}
    (h : required Json.asU64 field = some n) : field = some (num n) := by
  cases field with
  | none => cases h
  | some v => rw [asU64_eq_some h]

theorem tagged_obj {tag t : String} {ms : List (String × Json)} {rest : Json}
    (h : tagged tag (.obj ms) = some (t, rest)) :
    member ms tag = some (some (.str t)) ∧ rest = .obj (ms.filter (·.1 != tag)) := by
  unfold tagged at h
  dsimp only at h
  split at h
  case h_1 t' ht =>
    cases h
    exact ⟨ht, rfl⟩
  case h_2 => cases h

theorem struct_obj {names : List String} {ms : List (String × Json)} {fields : List (Option Json)}
    (h : struct names (.obj ms) = some fields) :
    List.Forall₂ (fun name field => member ms name = some field) names fields := by
  change names.mapM (member ms) = some fields at h
  induction names generalizing fields with
  | nil =>
    cases h
    exact List.Forall₂.nil
  | cons name names ih =>
    rw [List.mapM_cons] at h
    obtain ⟨field, hf, h⟩ := Option.bind_eq_some_iff.mp h
    obtain ⟨rest, hr, h⟩ := Option.bind_eq_some_iff.mp h
    cases h
    exact List.Forall₂.cons hf (ih hr)

/-- Members of another name do not matter. -/
theorem member_filter_ne {ms : List (String × Json)} {name tag : String} (h : name ≠ tag) :
    member (ms.filter (·.1 != tag)) name = member ms name := by
  have hf : (ms.filter (·.1 != tag)).filter (·.1 == name) = ms.filter (·.1 == name) := by
    rw [List.filter_filter]
    refine List.filter_congr ?_
    intro m _
    by_cases hm : m.1 = name <;> simp [hm, h]
  simp only [member, hf]

theorem member_eq_some {ms : List (String × Json)} {name : String} {v : Json}
    (h : member ms name = some (some v)) : ms.filter (·.1 == name) = [(name, v)] := by
  unfold member at h
  split at h
  case h_1 => cases h
  case h_2 m hm =>
    have hn : m ∈ ms.filter (·.1 == name) := by rw [hm]; exact List.mem_cons_self
    have hname := (List.mem_filter.mp hn).2
    cases h
    rw [hm, ← beq_iff_eq.mp hname]
  case h_3 => cases h

/-- Of names that are all different, the member is the one that is found. -/
theorem member_of_nodup {ms : List (String × Json)} (h : (ms.map Prod.fst).Nodup) (name : String) :
    member ms name = some (Json.lookup ms name) := by
  induction ms with
  | nil => rfl
  | cons m ms ih =>
    obtain ⟨key, v⟩ := m
    rw [List.map_cons, List.nodup_cons] at h
    rw [Json.lookup_cons]
    by_cases hkey : key = name
    · have hrest : ms.filter (·.1 == name) = [] := by
        rw [List.filter_eq_nil_iff]
        intro m hm heq
        have hsame : m.1 = key := (beq_iff_eq.mp heq).trans hkey.symm
        have hmem : m.1 ∈ ms.map Prod.fst := List.mem_map_of_mem hm
        exact h.1 (by rwa [hsame] at hmem)
      simp [member, hkey, hrest]
    · simpa [member, hkey] using ih h.2

/-- An object whose members are exactly those of `fields`, each once, is
`fields` in some order. -/
theorem perm_of_member : ∀ (fields ms : List (String × Json)), (fields.map Prod.fst).Nodup →
    (∀ f ∈ fields, member ms f.1 = some (some f.2)) →
    (∀ m ∈ ms, m.1 ∈ fields.map Prod.fst) → ms.Perm fields
  | [], ms, _, _, hkeys => by
      cases ms with
      | nil => exact List.Perm.refl _
      | cons m ms => exact absurd (hkeys m List.mem_cons_self) (by simp)
  | f :: fields, ms, hnd, hmember, hkeys => by
      rw [List.map_cons, List.nodup_cons] at hnd
      have hf := member_eq_some (hmember f List.mem_cons_self)
      have hsplit : (f :: ms.filter (·.1 != f.1)).Perm ms := by
        have hp := List.filter_append_perm (fun m : String × Json => m.1 == f.1) ms
        rw [hf] at hp
        exact hp
      have hrest : (ms.filter (·.1 != f.1)).Perm fields := by
        refine perm_of_member fields _ hnd.2 ?_ ?_
        · intro g hg
          have hne : g.1 ≠ f.1 := fun h => hnd.1 (h ▸ List.mem_map_of_mem hg)
          rw [member_filter_ne hne]
          exact hmember g (List.mem_cons_of_mem _ hg)
        · intro m hm
          obtain ⟨hm, hne⟩ := List.mem_filter.mp hm
          rcases List.mem_cons.mp (hkeys m hm) with h | h
          · simp [h] at hne
          · exact h
      exact hsplit.symm.trans (hrest.cons f)

end Serde
