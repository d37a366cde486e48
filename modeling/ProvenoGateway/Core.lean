/-
ProvenoGateway/Core.lean

The code the gateway calls and does not contain, as a parameter of the model.

`Deps` bundles it: proveno-core (values, canonical encoding, the compiler, the
VM, the oracle tape, the JSON form of a call record), the JSON Schema
validator, SHA-256, Ed25519, and the texts of serde's errors.  Nothing is
assumed of these functions here; each group of results names the documented
behaviour it relies on.

A VM run is a tree: it ends, or it calls a tool and goes on with the answer,
so a run has finitely many calls whatever the answers are.  The record core
keeps of a call is a function of the answer and of the attestation blob it
was handed; how the run goes on depends on the answer alone.  `drive` is a run
against a host, with the host's two functions called in the order core calls
them.
-/
import Mathlib.Data.List.Forall2
import ProvenoGateway.Config
import ProvenoGateway.JsonValue
import ProvenoGateway.Program

namespace ProvenoGateway

/-! ### Results -/

theorem mapError_eq_ok {ε ε' α : Type} {f : ε → ε'} {x : Except ε α} {a : α} :
    x.mapError f = .ok a ↔ x = .ok a := by
  cases x with
  | error e => simp [Except.mapError]
  | ok b => simp [Except.mapError]

theorem bind_eq_ok {ε α β : Type} {x : Except ε α} {f : α → Except ε β} {b : β} :
    x >>= f = .ok b ↔ ∃ a, x = .ok a ∧ f a = .ok b := by
  cases x with
  | error e =>
    constructor
    · intro h
      cases h
    · rintro ⟨a, ha, -⟩
      cases ha
  | ok a =>
    constructor
    · intro h
      exact ⟨a, rfl, h⟩
    · rintro ⟨a', ha, h⟩
      cases ha
      exact h

theorem mapM_eq_ok {ε α β : Type} {f : α → Except ε β} {l : List α} {l' : List β} :
    l.mapM f = .ok l' ↔ List.Forall₂ (fun a b => f a = .ok b) l l' := by
  induction l generalizing l' with
  | nil =>
    rw [List.mapM_nil, List.forall₂_nil_left_iff]
    exact ⟨fun h => by cases h; rfl, fun h => by rw [h]; rfl⟩
  | cons a l ih =>
    rw [List.mapM_cons, bind_eq_ok, List.forall₂_cons_left_iff]
    constructor
    · rintro ⟨b, hb, h⟩
      obtain ⟨rest, hrest, h⟩ := bind_eq_ok.mp h
      cases h
      exact ⟨b, rest, hb, ih.mp hrest, rfl⟩
    · rintro ⟨b, rest, hb, hrest, rfl⟩
      exact ⟨b, hb, bind_eq_ok.mpr ⟨rest, ih.mpr hrest, rfl⟩⟩

/-- What is on the left has something on the right. -/
theorem exists_right {α β : Type} {R : α → β → Prop} {l : List α} {l' : List β}
    (h : List.Forall₂ R l l') {a : α} (ha : a ∈ l) : ∃ b ∈ l', R a b := by
  induction h with
  | nil => cases ha
  | @cons x y _ _ hhd _ ih =>
    rcases List.mem_cons.mp ha with rfl | ha
    · exact ⟨y, List.mem_cons_self, hhd⟩
    · obtain ⟨b, hb, hR⟩ := ih ha
      exact ⟨b, List.mem_cons_of_mem _ hb, hR⟩

theorem exists_left {α β : Type} {R : α → β → Prop} {l : List α} {l' : List β}
    (h : List.Forall₂ R l l') {b : β} (hb : b ∈ l') : ∃ a ∈ l, R a b := by
  have hflip : List.Forall₂ (flip R) l' l := h.flip
  exact exists_right hflip hb

/-! ### proveno-core's data -/

inductive LuaKey
  | string (s : String)
  | integer (i : Int)
  deriving DecidableEq

inductive VmError (Value : Type)
  | withLine (line : Nat) (inner : VmError Value)
  | gasExhausted
  | memoryExhausted
  | callDepthExceeded
  | typeError (message : String)
  | runtimeError (value : Value)
  | toolError (message : String)
  | outputExceeded

/-- What makes a parse error special to the gateway. -/
inductive ParseErrorKind
  | disallowedIdent (name : String)
  | floatLiteral
  | other

structure ParseError where
  kind : ParseErrorKind
  line : Nat
  message : String

inductive CompileErrorKind
  | unknownGlobal (name : String)
  | toolAsValue
  | indirectToolCall
  | other

structure CompileError where
  kind : CompileErrorKind
  line : Nat
  message : String

inductive ToolCallStatus
  | ok
  | error
  deriving DecidableEq

structure ToolCallRecord where
  seq : UInt64
  toolName : String
  argsCanonical : ByteArray
  argsBytes : UInt64
  responseHash : String
  responseBytes : UInt64
  responseCanonical : ByteArray
  errorMessage : String
  attestation : ByteArray
  gasCharged : UInt64
  status : ToolCallStatus

/-- How a run ended, and its meters. -/
structure VmEnd (Value : Type) where
  result : Except (VmError Value) Value
  gasUsed : UInt64
  memoryUsed : UInt64

/-- A run of the VM, up to the answers of its host. -/
inductive VmRun (Value Table : Type)
  | done (e : VmEnd Value)
  | call (name : String) (args : Table)
      (record : Except String Table → ByteArray → ToolCallRecord)
      (next : Except String Table → VmRun Value Table)

/-- Every call the run can come to satisfies `P`. -/
def VmRun.EachCall {Value Table : Type}
    (P : String → Table → (Except String Table → ByteArray → ToolCallRecord) → Prop) :
    VmRun Value Table → Prop
  | .done _ => True
  | .call name args record next => P name args record ∧ ∀ answer, (next answer).EachCall P

structure TapeCall where
  toolName : String
  argsCanonical : ByteArray

structure Divergence where
  seq : UInt64
  expected : Option TapeCall
  actual : TapeCall

/-! ### The dependencies -/

/-- A 32-byte digest, an Ed25519 seed and an Ed25519 signature. -/
abbrev Digest : Type := Hex.Bytes 32
abbrev SigningKey : Type := Hex.Bytes 32
abbrev Signature : Type := Hex.Bytes 64

structure Deps : Type 1 where
  /-- `LuaValue` and `LuaTable`. -/
  Value : Type
  Table : Type
  nil : Value
  boolean : Bool → Value
  integer : Int → Value
  string : String → Value
  table : Table → Value
  /-- The bytes of a string value. -/
  asString : Value → Option ByteArray
  valueDebug : Value → String
  newTable : Table
  rawset : Table → LuaKey → Value → Except String Table
  /-- The canonical encoding, which is ASCII. -/
  CanonError : Type
  canonicalSerialize : Value → Except CanonError String
  canonicalSerializeTable : Table → Except CanonError String
  canonErrorDebug : CanonError → String
  canonErrorToVm : CanonError → VmError Value
  Block : Type
  CompiledProgram : Type
  parse : String → Except ParseError Block
  compile : Block → Except CompileError CompiledProgram
  verify : CompiledProgram → Except String Unit
  programHash : CompiledProgram → Digest
  vmDefault : VmSettings
  execute : CompiledProgram → VmConfig → VmRun Value Table
  /-- The bytes a call's arguments are recorded and compared as. -/
  argsCanonical : Table → ByteArray
  recordToJson : ToolCallRecord → Json
  recordFromJson : Json → Option ToolCallRecord
  /-- `TapeHost::strict(OracleTape::from_records(..))` and its functions. -/
  Tape : Type
  tapeStrict : List ToolCallRecord → Tape
  tapeCall : Tape → String → Table → Except String Table × Tape
  tapeTakeAttestation : Tape → Option ByteArray × Tape
  tapeDivergence : Tape → Option Divergence
  tapeRemaining : Tape → Nat
  /-- `jsonschema::options().offline().build`, and the instance path and the
  text of the first error. -/
  schemaValidator : Json → Except String (Json → Option (String × String))
  sha256 : ByteArray → Digest
  VerifyingKey : Type
  verifyingKey : SigningKey → VerifyingKey
  sign : SigningKey → Digest → Signature
  verifyStrict : VerifyingKey → Digest → Signature → Bool
  /-- The text of the double nearest to a number literal. -/
  double : String → Option String
  /-- What serde_json says about a text it cannot read, and about a value that
  is not a provenance. -/
  jsonErrorText : String → String
  provenanceErrorText : Json → String

/-- Core reached through its bytes, `serde_json::from_str::<Value>`. -/
def Deps.fromStr (deps : Deps) (text : String) : Except String Json :=
  match Json.fromStr deps.double text with
  | some v => .ok v
  | none => .error (deps.jsonErrorText text)

/-! ### Driving a run -/

/-- What core asks of its host. -/
structure HostInterface (Op : Type) (Res : Op → Type) (Table Host : Type) where
  callTool : Host → String → Table → Program Op Res (Except String Table × Host)
  takeAttestation : Host → Option ByteArray × Host

section Drive

variable {Op : Type} {Res : Op → Type} {Host : Type}

/-- `Vm::execute`: after each call that returned a table the host is asked
once for the attestation; a call is recorded if it failed or if its table has
a canonical encoding. -/
def drive (deps : Deps) (host : HostInterface Op Res deps.Table Host) :
    VmRun deps.Value deps.Table → Host → List ToolCallRecord →
      Program Op Res (VmEnd deps.Value × Host × List ToolCallRecord)
  | .done e, h, transcript => pure (e, h, transcript)
  | .call name args record next, h, transcript => do
      let (answer, h) ← host.callTool h name args
      match answer with
      | .error e =>
          drive deps host (next (.error e)) h (transcript ++ [record (.error e) ByteArray.empty])
      | .ok t =>
          let (attestation, h) := host.takeAttestation h
          let recorded := match deps.canonicalSerializeTable t with
            | .ok _ => [record (.ok t) (attestation.getD ByteArray.empty)]
            | .error _ => []
          drive deps host (next (.ok t)) h (transcript ++ recorded)

theorem drive_call (deps : Deps) (host : HostInterface Op Res deps.Table Host) (name : String)
    (args : deps.Table) (record : Except String deps.Table → ByteArray → ToolCallRecord)
    (next : Except String deps.Table → VmRun deps.Value deps.Table) (h : Host)
    (transcript : List ToolCallRecord) :
    drive deps host (.call name args record next) h transcript =
      host.callTool h name args >>= fun x =>
        match x.1 with
        | .error e =>
            drive deps host (next (.error e)) x.2
              (transcript ++ [record (.error e) ByteArray.empty])
        | .ok t =>
            drive deps host (next (.ok t)) (host.takeAttestation x.2).2
              (transcript ++ match deps.canonicalSerializeTable t with
                | .ok _ => [record (.ok t) ((host.takeAttestation x.2).1.getD ByteArray.empty)]
                | .error _ => []) := by
  rw [drive]

/-- A run performs no operation but its host's. -/
theorem drive_uses {allowed : Op → Prop} {deps : Deps} {host : HostInterface Op Res deps.Table Host}
    (hcall : ∀ h name args, (host.callTool h name args).Uses allowed)
    (run : VmRun deps.Value deps.Table) (h : Host) (transcript : List ToolCallRecord) :
    (drive deps host run h transcript).Uses allowed := by
  induction run generalizing h transcript with
  | done e => trivial
  | call name args record next ih =>
    rw [drive_call]
    apply Program.Uses.bind (hcall h name args)
    rintro ⟨answer, h'⟩
    cases answer with
    | error e => exact ih _ _ _
    | ok t => exact ih _ _ _

end Drive

end ProvenoGateway
