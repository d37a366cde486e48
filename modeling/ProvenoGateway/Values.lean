/-
ProvenoGateway/Values.lean

Mapping between JSON values and the VM's integer-only value model
(`values.rs`).
-/
import ProvenoGateway.Core

namespace ProvenoGateway

variable (deps : Deps)

/-- Program arguments to JSON, through the VM's one canonical encoding. -/
def tableToJson (t : deps.Table) : Except String Json :=
  match deps.canonicalSerializeTable t with
  | .error e => .error s!"cannot serialize arguments: {deps.canonErrorDebug e}"
  | .ok text =>
      match deps.fromStr text with
      | .ok v => .ok v
      | .error e => .error s!"canonical arguments are not JSON: {e}"

/-- `t.rawset(key, value)`. -/
def setKey (t : deps.Table) (key : LuaKey) (value : deps.Value) : Except String deps.Table :=
  (deps.rawset t key value).mapError fun e => s!"cannot build response table: {e}"

mutual

def toLua : Json → Except String deps.Value
  | .null => .ok deps.nil
  | .bool b => .ok (deps.boolean b)
  | .num n =>
      match n.asI64 with
      | some i => .ok (deps.integer i)
      | none => .ok (deps.string (String.ofList n.chars))
  | .str s => .ok (deps.string s)
  | .arr items => (arrayToTable 1 items deps.newTable).map deps.table
  | .obj members => (objectToTable members deps.newTable).map deps.table

/-- Members in order; a null member is left out. -/
def objectToTable : List (String × Json) → deps.Table → Except String deps.Table
  | [], t => .ok t
  | (key, value) :: rest, t =>
      if value.isNull then objectToTable rest t
      else do
        let v ← toLua value
        let t ← setKey deps t (.string key) v
        objectToTable rest t

/-- Items under the keys `i`, `i + 1`, …; a null item is an error. -/
def arrayToTable (i : Int) : List Json → deps.Table → Except String deps.Table
  | [], t => .ok t
  | value :: rest, t =>
      if value.isNull then
        .error s!"null at array index {i} cannot be represented in a table"
      else do
        let v ← toLua value
        let t ← setKey deps t (.integer i) v
        arrayToTable (i + 1) rest t

end

/-- A downstream response to a table. -/
def jsonToTable : Json → Except String deps.Table
  | .obj members => objectToTable deps members deps.newTable
  | other => .error s!"response must be a JSON object, got {other.print}"

end ProvenoGateway
