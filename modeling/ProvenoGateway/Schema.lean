/-
ProvenoGateway/Schema.lean

JSON Schema for closed objects, as a library of its own.

A schema is a JSON document.  Of its keywords, `type`, `properties`,
`required` and `additionalProperties` with a boolean are read; the other ones
these schemas have are annotations.  `valid_closed` says what an object schema
that admits no other property accepts.
-/
import ProvenoGateway.Json

namespace JsonSchema

/-- The types whose values are told apart by their syntax. -/
def hasType (name : String) : Json → Bool
  | .null => name == "null"
  | .bool _ => name == "boolean"
  | .num _ => name == "number"
  | .str _ => name == "string"
  | .arr _ => name == "array"
  | .obj _ => name == "object"

/-- The strings of an array. -/
def names : Json → List String
  | .arr items => items.filterMap Json.asStr
  | _ => []

/-- The names `properties` has a schema for. -/
def propertyNames (keywords : List (String × Json)) : List String :=
  match Json.lookup keywords "properties" with
  | some (.obj properties) => properties.map Prod.fst
  | _ => []

/-- The names `required` lists. -/
def requiredNames (keywords : List (String × Json)) : List String :=
  ((Json.lookup keywords "required").map names).getD []

/-- The properties that need not be there. -/
def optionalNames (keywords : List (String × Json)) : List String :=
  (propertyNames keywords).filter fun name => !(requiredNames keywords).contains name

/-- An object has every name; any other value passes. -/
def hasAll (required : List String) : Json → Bool
  | .obj members => required.all fun name => (Json.lookup members name).isSome
  | _ => true

/-- An object has no other name; any other value passes. -/
def hasOnly (allowed : List String) : Json → Bool
  | .obj members => members.all fun m => allowed.contains m.1
  | _ => true

mutual

/-- Whether a value satisfies a schema. -/
def valid : Json → Json → Bool
  | .bool b, _ => b
  | .obj keywords, v => satisfies keywords keywords v
  | _, _ => true

/-- The keywords one after the other; `all` are the keywords of the schema. -/
def satisfies (all : List (String × Json)) : List (String × Json) → Json → Bool
  | [], _ => true
  | (keyword, .str name) :: rest, v =>
      (keyword != "type" || hasType name v) && satisfies all rest v
  | (keyword, .obj properties) :: rest, v =>
      (keyword != "properties" || follows properties v) && satisfies all rest v
  | (keyword, .arr items) :: rest, v =>
      (keyword != "required" || hasAll (names (.arr items)) v) && satisfies all rest v
  | (keyword, .bool b) :: rest, v =>
      (keyword != "additionalProperties" || b || hasOnly (propertyNames all) v) &&
        satisfies all rest v
  | _ :: rest, v => satisfies all rest v

/-- The members that have a schema satisfy it. -/
def follows : List (String × Json) → Json → Bool
  | [], _ => true
  | (name, schema) :: rest, v =>
      (match v.get name with
        | some member => valid schema member
        | none => true) && follows rest v

end

/-- An object with these properties, of which some are required, and no
other. -/
def closed (properties : List (String × Json)) (required : List String) :
    List (String × Json) := [
  ("additionalProperties", .bool false),
  ("properties", .obj properties),
  ("required", .arr (required.map Json.str)),
  ("type", .str "object")]

/-- A described string. -/
def text (description : String) : Json :=
  .obj [("description", .str description), ("type", .str "string")]

theorem follows_iff {properties : List (String × Json)} {v : Json} :
    follows properties v = true ↔
      ∀ p ∈ properties, ∀ member, v.get p.1 = some member → valid p.2 member = true := by
  induction properties with
  | nil => simp [follows]
  | cons p properties ih =>
    obtain ⟨name, schema⟩ := p
    rw [follows, Bool.and_eq_true, ih, List.forall_mem_cons]
    refine and_congr_left' ?_
    rcases v.get name with - | member <;> simp

theorem names_strings (required : List String) :
    names (.arr (required.map Json.str)) = required := by
  simp [names, List.filterMap_map, Function.comp_def, Json.asStr]

/-- **What a closed object schema accepts.** -/
theorem valid_closed {properties : List (String × Json)} {required : List String} {v : Json} :
    valid (.obj (closed properties required)) v = true ↔
      ∃ members, v = .obj members ∧ (∀ m ∈ members, m.1 ∈ properties.map Prod.fst) ∧
        (∀ p ∈ properties, ∀ member, Json.lookup members p.1 = some member →
          valid p.2 member = true) ∧
        ∀ name ∈ required, (Json.lookup members name).isSome = true := by
  have hnames : propertyNames (closed properties required) = properties.map Prod.fst := rfl
  have hvalid : valid (.obj (closed properties required)) v =
      (hasOnly (properties.map Prod.fst) v && (follows properties v &&
        (hasAll required v && hasType "object" v))) := by
    simp [closed, valid, satisfies, names_strings, ← hnames]
  rw [hvalid]
  simp only [Bool.and_eq_true, follows_iff]
  cases v with
  | obj members =>
    simp only [hasOnly, hasAll, hasType, List.all_eq_true, List.contains_iff_mem, beq_self_eq_true,
      and_true, Json.obj.injEq, Json.get_obj]
    constructor
    · rintro ⟨honly, hfollows, hall⟩
      exact ⟨members, rfl, honly, hfollows, hall⟩
    · rintro ⟨_, rfl, honly, hfollows, hall⟩
      exact ⟨honly, hfollows, hall⟩
  | _ =>
    -- not an object
    constructor
    · rintro ⟨-, -, -, htype⟩
      simp [hasType] at htype
    · rintro ⟨members, h, -⟩
      cases h

theorem valid_text {description : String} {v : Json} :
    valid (text description) v = true ↔ ∃ s, v = .str s := by
  have hvalid : valid (text description) v = hasType "string" v := by
    simp [text, valid, satisfies]
  rw [hvalid]
  cases v <;> simp [hasType]

end JsonSchema
