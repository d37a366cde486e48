/-
ProvenoGateway/Policy.lean

The static rules file (`policy.rs`): allow-lists and inclusive upper bounds
for arguments.  TOML decoding is third-party; `parse` takes the decoder.
-/
import Mathlib.Data.String.Basic
import ProvenoGateway.Core
import ProvenoGateway.Serde

namespace ProvenoGateway

inductive Decision
  | allow
  | deny (reason : String)
  deriving DecidableEq

/-- The principals' allow-lists, and for each qualified tool name the bounds
by argument name. -/
structure Policy where
  principals : OrdMap String (OrdSet String)
  constraints : OrdMap String (OrdMap String Int64)

inductive PolicyError
  | invalid (message : String)

structure PrincipalFile where
  allow : List String

structure PolicyFile where
  principals : OrdMap String PrincipalFile
  constraints : OrdMap String (OrdMap String Int64)

namespace Policy

/-! ### Reading the rules -/

/-- The bounds of one tool: every key is `<arg>_max`. -/
def parseBounds (tool : String) :
    List (String × Int64) → OrdMap String Int64 → Except PolicyError (OrdMap String Int64)
  | [], args => .ok args
  | (key, max) :: rest, args =>
      match (Text.stripSuffix "_max" key).filter (· ≠ "") with
      | some arg => parseBounds tool rest (args.insert arg max)
      | none =>
          .error (.invalid s!"constraint {tool}.{key}: only <arg>_max bounds are supported")

def parseConstraints :
    List (String × OrdMap String Int64) → OrdMap String (OrdMap String Int64) →
      Except PolicyError (OrdMap String (OrdMap String Int64))
  | [], constraints => .ok constraints
  | (tool, bounds) :: rest, constraints => do
      let args ← parseBounds tool bounds.entries OrdMap.empty
      parseConstraints rest (constraints.insert tool args)

def parse (toml : String → Except String PolicyFile) (text : String) :
    Except PolicyError Policy := do
  let file ← (toml text).mapError PolicyError.invalid
  let principals := OrdMap.ofList
    (file.principals.entries.map fun p => (p.1, OrdSet.ofList p.2.allow))
  let constraints ← parseConstraints file.constraints.entries OrdMap.empty
  .ok ⟨principals, constraints⟩

/-! ### The policy hash -/

/-- A signed 64-bit integer as a JSON number. -/
def i64ToJson (i : Int64) : Json :=
  if h : i.toInt < 0 then
    .num (.negInt ⟨i.toInt, by have := i.le_toInt; omega, h⟩)
  else Serde.num (UInt64.ofNat i.toInt.toNat)

def toJson (policy : Policy) : Json :=
  .obj [
    ("principals", .obj (policy.principals.entries.map fun p =>
      (p.1, .arr (p.2.keys.map Json.str)))),
    ("constraints", .obj (policy.constraints.entries.map fun c =>
      (c.1, .obj (c.2.entries.map fun b => (b.1, i64ToJson b.2)))))]

def policyHash (deps : Deps) (policy : Policy) : Digest := deps.sha256 policy.toJson.toVec

/-! ### Deciding a call -/

def allowedTools (policy : Policy) (principal : String) : OrdSet String :=
  (policy.principals.get principal).getD OrdMap.empty

/-- The loop over the bounds of one tool. -/
def checkBounds (tool : String) (args : Json) : List (String × Int64) → Decision
  | [] => .allow
  | (arg, max) :: rest =>
      match args.get arg with
      | none => .deny s!"{tool}: {arg} is required by {arg}_max"
      | some value =>
          let exceeds : Option Bool := match value.asI64, value.asU64 with
            | some n, _ => some (max.toInt < n)
            -- above every signed bound
            | none, some _ => some true
            | none, none => none
          match exceeds with
          | none => .deny s!"{tool}: {arg} {value.print} is not an integer"
          | some true => .deny s!"{tool}: {arg} {value.print} exceeds {arg}_max {max.toInt}"
          | some false => checkBounds tool args rest

def check (policy : Policy) (principal tool : String) (args : Json) : Decision :=
  match policy.principals.get principal with
  | none => .deny s!"unknown principal {principal}"
  | some allow =>
      if !allow.contains tool then
        .deny s!"{tool} is not allowed for principal {principal}"
      else checkBounds tool args (((policy.constraints.get tool).map OrdMap.entries).getD [])

end Policy

end ProvenoGateway
