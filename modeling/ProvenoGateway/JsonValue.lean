/-
ProvenoGateway/JsonValue.lean

Reading JSON text the way a consumer of bounded depth does, and JSON values
whose objects are maps, as a library of its own.

`Json` keeps the members of an object as they were written.  A reader that
builds a map keeps one member for each key, the last one written, and lists
them by key; `toValue` is that reading of a syntax tree.  A number that is not
a 64-bit integer is held as the nearest double, so `toValue` takes the
function `double` from the literal to the text of that double, which has no
value when the literal is out of range.

Both readers refuse a text nested deeper than `recursionLimit`.
-/
import Mathlib.Data.String.Basic
import ProvenoGateway.OrdMap
import ProvenoGateway.JsonParse

namespace Json

/-! ### Nesting -/

mutual

/-- How deep arrays and objects are nested. -/
def depth : Json → Nat
  | arr items => depthItems items + 1
  | obj members => depthMembers members + 1
  | _ => 0

def depthItems : List Json → Nat
  | [] => 0
  | v :: vs => max v.depth (depthItems vs)

def depthMembers : List (String × Json) → Nat
  | [] => 0
  | (_, v) :: ms => max v.depth (depthMembers ms)

end

/-- The deepest nesting a reader accepts. -/
def recursionLimit : Nat := 127

theorem depth_arr (vs : List Json) : (arr vs).depth = depthItems vs + 1 := rfl

theorem depth_obj (ms : List (String × Json)) : (obj ms).depth = depthMembers ms + 1 := rfl

theorem depthMembers_nil : depthMembers [] = 0 := rfl

theorem depthMembers_cons (name : String) (v : Json) (ms : List (String × Json)) :
    depthMembers ((name, v) :: ms) = max v.depth (depthMembers ms) := rfl

theorem depthItems_le {vs : List Json} {n : Nat} :
    depthItems vs ≤ n ↔ ∀ v ∈ vs, v.depth ≤ n := by
  induction vs with
  | nil => simp [depthItems]
  | cons v vs ih => simp [depthItems, ih]

/-- The syntax tree of a text, if it is not nested too deep. -/
def readSlice (bytes : ByteArray) : Option Json := do
  let v ← fromSlice bytes
  if v.depth ≤ recursionLimit then some v else none

/-- A value that is exact and not nested too deep survives a round trip. -/
theorem readSlice_toVec {v : Json} (hv : v.Exact) (hd : v.depth ≤ recursionLimit) :
    readSlice (toVec v) = some v := by
  simp [readSlice, fromSlice_toVec v hv, hd]

/-! ### Values -/

/-- Put the members of an object in the order of their keys, keeping the last
one of each key. -/
def sortMembers (members : List (String × Json)) : List (String × Json) :=
  (OrdMap.ofList members).entries

mutual

/-- The value a syntax tree denotes. -/
def toValue (double : String → Option String) : Json → Option Json
  | num (.float text) => (double text).map fun text => num (.float text)
  | arr items => (toValues double items).map arr
  | obj members => (toMembers double members).map fun members => obj (sortMembers members)
  | v => some v

def toValues (double : String → Option String) : List Json → Option (List Json)
  | [] => some []
  | v :: vs => do some ((← v.toValue double) :: (← toValues double vs))

def toMembers (double : String → Option String) :
    List (String × Json) → Option (List (String × Json))
  | [] => some []
  | (k, v) :: ms => do some ((k, ← v.toValue double) :: (← toMembers double ms))

end

mutual

/-- Every object lists its members by key, each once: what a value whose
objects are maps looks like. -/
def Ordered : Json → Prop
  | arr items => OrderedItems items
  | obj members => (members.Pairwise fun a b => a.1 < b.1) ∧ OrderedMembers members
  | _ => True

def OrderedItems : List Json → Prop
  | [] => True
  | v :: vs => v.Ordered ∧ OrderedItems vs

def OrderedMembers : List (String × Json) → Prop
  | [] => True
  | (_, v) :: ms => v.Ordered ∧ OrderedMembers ms

end

theorem orderedItems_iff {vs : List Json} : OrderedItems vs ↔ ∀ v ∈ vs, v.Ordered := by
  induction vs with
  | nil => simp [OrderedItems]
  | cons v vs ih => simp [OrderedItems, ih]

theorem orderedMembers_iff {ms : List (String × Json)} :
    OrderedMembers ms ↔ ∀ m ∈ ms, m.2.Ordered := by
  induction ms with
  | nil => simp [OrderedMembers]
  | cons m ms ih => simp [OrderedMembers, ih]

theorem mem_sortMembers {ms : List (String × Json)} {m : String × Json}
    (h : m ∈ sortMembers ms) : m ∈ ms := by
  -- generalised to any map to start from
  have gen : ∀ (l : List (String × Json)) (start : OrdMap String Json),
      m ∈ (l.foldl (fun m e => m.insert e.1 e.2) start).entries → m ∈ l ∨ m ∈ start.entries := by
    intro l
    induction l with
    | nil => exact fun start h => Or.inr h
    | cons e rest ih =>
      intro start h
      rcases ih _ h with h | h
      · exact Or.inl (List.mem_cons_of_mem e h)
      · rcases OrdMap.mem_insertList h with h | h
        · exact Or.inl (by rw [h]; exact List.mem_cons_self)
        · exact Or.inr h
  rcases gen ms OrdMap.empty h with h | h
  · exact h
  · exact absurd h List.not_mem_nil

mutual

/-- What a reader makes of a syntax tree is ordered. -/
theorem ordered_toValue {double : String → Option String} : (v : Json) → {w : Json} →
    v.toValue double = some w → w.Ordered
  | .null, _, h | .bool _, _, h | .str _, _, h | .num (.posInt _), _, h | .num (.negInt _), _, h =>
      by
    cases h
    trivial
  | .num (.float text), w, h => by
    obtain ⟨t, -, rfl⟩ := Option.map_eq_some_iff.mp h
    trivial
  | .arr items, w, h => by
    obtain ⟨ws, hws, rfl⟩ := Option.map_eq_some_iff.mp h
    exact ordered_toValues items hws
  | .obj members, w, h => by
    obtain ⟨ms, hms, rfl⟩ := Option.map_eq_some_iff.mp h
    have hall := orderedMembers_iff.mp (ordered_toMembers members hms)
    exact ⟨(OrdMap.ofList ms).sorted,
      orderedMembers_iff.mpr fun m hm => hall m (mem_sortMembers hm)⟩

theorem ordered_toValues {double : String → Option String} : (vs : List Json) → {ws : List Json} →
    toValues double vs = some ws → OrderedItems ws
  | [], _, h => by
    cases h
    trivial
  | v :: vs, ws, h => by
    simp only [toValues, Option.bind_eq_bind, Option.bind_eq_some_iff, Option.some.injEq] at h
    obtain ⟨w, hw, rest, hrest, rfl⟩ := h
    exact ⟨ordered_toValue v hw, ordered_toValues vs hrest⟩

theorem ordered_toMembers {double : String → Option String} : (ms : List (String × Json)) →
    {ns : List (String × Json)} → toMembers double ms = some ns → OrderedMembers ns
  | [], _, h => by
    cases h
    trivial
  | (k, v) :: ms, ns, h => by
    simp only [toMembers, Option.bind_eq_bind, Option.bind_eq_some_iff, Option.some.injEq] at h
    obtain ⟨w, hw, rest, hrest, rfl⟩ := h
    exact ⟨ordered_toValue v hw, ordered_toMembers ms hrest⟩

end

mutual

/-- An ordered tree without a `float` is the value it denotes. -/
theorem toValue_self (double : String → Option String) : (v : Json) → v.Exact → v.Ordered →
    v.toValue double = some v
  | .null, _, _ | .bool _, _, _ | .str _, _, _ | .num (.posInt _), _, _
  | .num (.negInt _), _, _ => rfl
  | .num (.float _), hv, _ => hv.elim
  | .arr items, hv, ho => by
    rw [toValue, toValues_self double items hv ho]
    rfl
  | .obj members, hv, ho => by
    rw [toValue, toMembers_self double members hv ho.2]
    show some (obj (sortMembers members)) = some (obj members)
    rw [sortMembers, OrdMap.entries_ofList ho.1]

theorem toValues_self (double : String → Option String) : (vs : List Json) → ExactItems vs →
    OrderedItems vs → toValues double vs = some vs
  | [], _, _ => rfl
  | v :: vs, hv, ho => by
    rw [toValues, toValue_self double v hv.1 ho.1, toValues_self double vs hv.2 ho.2]
    rfl

theorem toMembers_self (double : String → Option String) : (ms : List (String × Json)) →
    ExactMembers ms → OrderedMembers ms → toMembers double ms = some ms
  | [], _, _ => rfl
  | (k, v) :: ms, hv, ho => by
    rw [toMembers, toValue_self double v hv.1 ho.1, toMembers_self double ms hv.2 ho.2]
    rfl

end

/-- Reading a text as a value. -/
def fromStr (double : String → Option String) (text : String) : Option Json := do
  let v ← parse text
  if v.depth ≤ recursionLimit then v.toValue double else none

end Json
