/-
ProvenoGateway/Json.lean

JSON values and their compact text, as a library of its own.

A value is a syntax tree: an object keeps its members as they were written,
in order and with repetitions, so a reader that cares about duplicates can
see them.  A number is an unsigned or a negative 64-bit integer, or anything
else the JSON grammar allows, which is kept as its decimal text.

`Json.print` is the compact writer: no white space, the short escapes for the
seven characters that have one, `\u00xx` for the other control characters,
every other character as it is.  `ProvenoGateway.JsonParse` reads it back.
-/
import Mathlib.Algebra.Group.Int.Defs
import Mathlib.Algebra.Group.Nat.Defs
import ProvenoGateway.Hex

/-! ### Values -/

/-- A negative integer of 64 bits. -/
structure NegInt64 where
  val : Int
  lo : -2 ^ 63 ≤ val
  neg : val < 0
  deriving DecidableEq

/-- A JSON number.  `float` carries the decimal text of a number that is not
a 64-bit integer. -/
inductive JsonNumber
  | posInt (n : UInt64)
  | negInt (i : NegInt64)
  | float (text : String)
  deriving DecidableEq

inductive Json
  | null
  | bool (b : Bool)
  | num (n : JsonNumber)
  | str (s : String)
  | arr (items : List Json)
  | obj (members : List (String × Json))

namespace JsonNumber

/-- The value as a signed 64-bit integer, if it is one. -/
def asI64 : JsonNumber → Option Int
  | posInt n => if n.toNat < 2 ^ 63 then some n.toNat else none
  | negInt i => some i.val
  | float _ => none

/-- The value as an unsigned 64-bit integer, if it is one. -/
def asU64 : JsonNumber → Option UInt64
  | posInt n => some n
  | negInt _ => none
  | float _ => none

/-- The decimal text. -/
def chars : JsonNumber → List Char
  | posInt n => Nat.toDigits 10 n.toNat
  | negInt i => '-' :: Nat.toDigits 10 i.val.natAbs
  | float text => text.toList

end JsonNumber

namespace Json

/-! ### Accessors -/

/-- The first member called `key` of a list of members. -/
def lookup (members : List (String × Json)) (key : String) : Option Json :=
  (members.find? fun m => m.1 == key).map Prod.snd

/-- A member of an object, `none` on any other value. -/
def get : Json → String → Option Json
  | obj members, key => lookup members key
  | _, _ => none

def asObject : Json → Option (List (String × Json))
  | obj members => some members
  | _ => none

def asArray : Json → Option (List Json)
  | arr items => some items
  | _ => none

def isNull : Json → Bool
  | null => true
  | _ => false

def isObject : Json → Bool
  | obj _ => true
  | _ => false

def asStr : Json → Option String
  | str s => some s
  | _ => none

def asI64 : Json → Option Int
  | num n => n.asI64
  | _ => none

def asU64 : Json → Option UInt64
  | num n => n.asU64
  | _ => none

@[simp] theorem get_obj (members : List (String × Json)) (key : String) :
    (obj members).get key = lookup members key := rfl

@[simp] theorem lookup_nil (key : String) : lookup [] key = none := rfl

theorem lookup_cons (k : String) (v : Json) (members : List (String × Json)) (key : String) :
    lookup ((k, v) :: members) key = if k = key then some v else lookup members key := by
  by_cases h : k = key
  · simp [lookup, h]
  · have hb : (k == key) = false := by simpa using h
    simp [lookup, h, hb]

/-! ### Compact text -/

/-- One character of a string as it is written between quotes. -/
def escapeChar (c : Char) : List Char :=
  match c.toNat with
  | 0x22 => ['\\', '"']
  | 0x5c => ['\\', '\\']
  | 0x08 => ['\\', 'b']
  | 0x09 => ['\\', 't']
  | 0x0a => ['\\', 'n']
  | 0x0c => ['\\', 'f']
  | 0x0d => ['\\', 'r']
  | n => if n < 0x20 then ['\\', 'u', '0', '0', Hex.digit (n / 16), Hex.digit (n % 16)] else [c]

/-- A string between quotes. -/
def quote (s : String) : List Char :=
  '"' :: (s.toList.flatMap escapeChar ++ ['"'])

mutual

/-- The compact text of a value. -/
def chars : Json → List Char
  | null => ['n', 'u', 'l', 'l']
  | bool true => ['t', 'r', 'u', 'e']
  | bool false => ['f', 'a', 'l', 's', 'e']
  | num n => n.chars
  | str s => quote s
  | arr items => '[' :: (itemChars true items ++ [']'])
  | obj members => '{' :: (memberChars true members ++ ['}'])

/-- Array items; every one but the first is preceded by a comma. -/
def itemChars (first : Bool) : List Json → List Char
  | [] => []
  | v :: vs => (if first then [] else [',']) ++ (v.chars ++ itemChars false vs)

/-- Object members; every one but the first is preceded by a comma. -/
def memberChars (first : Bool) : List (String × Json) → List Char
  | [] => []
  | (k, v) :: ms =>
      (if first then [] else [',']) ++ (quote k ++ ':' :: (v.chars ++ memberChars false ms))

end

/-- The compact text of a value, as a string. -/
def print (v : Json) : String := String.ofList v.chars

/-! ### Values without a `float` -/

mutual

/-- Every number in the value is a 64-bit integer, so that printing loses
nothing. -/
def Exact : Json → Prop
  | null => True
  | bool _ => True
  | num (.float _) => False
  | num _ => True
  | str _ => True
  | arr items => ExactItems items
  | obj members => ExactMembers members

def ExactItems : List Json → Prop
  | [] => True
  | v :: vs => v.Exact ∧ ExactItems vs

def ExactMembers : List (String × Json) → Prop
  | [] => True
  | (_, v) :: ms => v.Exact ∧ ExactMembers ms

end

theorem exact_arr (vs : List Json) : (arr vs).Exact = ExactItems vs := rfl

theorem exact_obj (ms : List (String × Json)) : (obj ms).Exact = ExactMembers ms := rfl

theorem exactMembers_nil : ExactMembers [] = True := rfl

theorem exactMembers_cons (name : String) (v : Json) (ms : List (String × Json)) :
    ExactMembers ((name, v) :: ms) = (v.Exact ∧ ExactMembers ms) := rfl

theorem exactItems_iff {vs : List Json} : ExactItems vs ↔ ∀ v ∈ vs, v.Exact := by
  induction vs with
  | nil => simp [ExactItems]
  | cons v vs ih => simp [ExactItems, ih]

end Json
