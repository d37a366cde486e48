/-
ProvenoGateway/Trace.lean

The signed trace of a run (`trace.rs`): a header, one entry for each tool
call, and a footer.

The JSON form is that of the derived serializers, fields in declaration order.
`Trace.fromJson` reads it back; the round trip and the facts the text layer
needs of the written value (every number a 64-bit integer, shallow nesting)
are proved type by type.  Of core's own call record, whose serializer is not
here, `RecordCodec` says what the gateway relies on.
-/
import ProvenoGateway.Serde
import ProvenoGateway.Core

namespace ProvenoGateway

/-! ### The data -/

inductive Provenance
  | unsigned
  | signed (by_ sig : String)
  | onchain (chain : String) (block : UInt64) (reference : String)
  | notarized (scheme reference : String)
  deriving DecidableEq

inductive CallDecision
  | allowed
  | rejectedBySchema (reason : String)
  | deniedByPolicy (reason : String)
  deriving DecidableEq

structure TraceHeader where
  traceId : String
  session : Option String
  principal : String
  programHash : String
  gatewayPolicyHash : String
  descriptionHash : String
  vmVersion : String
  vmConfig : VmSettings
  request : Option String
  deriving DecidableEq

structure TraceEntry where
  record : ToolCallRecord
  decision : CallDecision
  provenance : Provenance

inductive RunStatus
  | ok
  | error (kind message : String)
  deriving DecidableEq

structure TraceFooter where
  output : Option String
  status : RunStatus
  gasUsed : UInt64
  memoryUsed : UInt64
  signature : String
  deriving DecidableEq

structure Trace where
  header : TraceHeader
  entries : List TraceEntry
  footer : TraceFooter

inductive TraceError
  | invalidSigningKey
  | malformedSignature
  | signatureMismatch
  deriving DecidableEq

/-! ### Writing -/

def Provenance.toJson : Provenance → Json
  | unsigned => .obj [("type", .str "unsigned")]
  | signed by_ sig => .obj [("type", .str "signed"), ("by", .str by_), ("sig", .str sig)]
  | onchain chain block reference =>
      .obj [("type", .str "onchain"), ("chain", .str chain), ("block", Serde.num block),
        ("reference", .str reference)]
  | notarized scheme reference =>
      .obj [("type", .str "notarized"), ("scheme", .str scheme), ("reference", .str reference)]

def CallDecision.toJson : CallDecision → Json
  | allowed => .obj [("type", .str "allowed")]
  | rejectedBySchema reason =>
      .obj [("type", .str "rejected_by_schema"), ("reason", .str reason)]
  | deniedByPolicy reason => .obj [("type", .str "denied_by_policy"), ("reason", .str reason)]

def RunStatus.toJson : RunStatus → Json
  | ok => .obj [("type", .str "ok")]
  | error kind message =>
      .obj [("type", .str "error"), ("kind", .str kind), ("message", .str message)]

def VmSettings.toJson (s : VmSettings) : Json :=
  .obj [
    ("gas_limit", Serde.num s.gasLimit),
    ("memory_limit_bytes", Serde.num s.memoryLimitBytes),
    ("max_call_depth", Serde.num s.maxCallDepth),
    ("max_tool_calls", Serde.num s.maxToolCalls),
    ("max_tool_bytes_in", Serde.num s.maxToolBytesIn),
    ("max_tool_bytes_out", Serde.num s.maxToolBytesOut),
    ("max_output_bytes", Serde.num s.maxOutputBytes)]

def TraceHeader.toJson (h : TraceHeader) : Json :=
  .obj [
    ("trace_id", .str h.traceId),
    ("session", Serde.optStr h.session),
    ("principal", .str h.principal),
    ("program_hash", .str h.programHash),
    ("gateway_policy_hash", .str h.gatewayPolicyHash),
    ("description_hash", .str h.descriptionHash),
    ("vm_version", .str h.vmVersion),
    ("vm_config", h.vmConfig.toJson),
    ("request", Serde.optStr h.request)]

def TraceEntry.toJson (deps : Deps) (e : TraceEntry) : Json :=
  .obj [
    ("record", deps.recordToJson e.record),
    ("decision", e.decision.toJson),
    ("provenance", e.provenance.toJson)]

def TraceFooter.toJson (f : TraceFooter) : Json :=
  .obj [
    ("output", Serde.optStr f.output),
    ("status", f.status.toJson),
    ("gas_used", Serde.num f.gasUsed),
    ("memory_used", Serde.num f.memoryUsed),
    ("signature", .str f.signature)]

def Trace.toJson (deps : Deps) (t : Trace) : Json :=
  .obj [
    ("header", t.header.toJson),
    ("entries", .arr (t.entries.map (TraceEntry.toJson deps))),
    ("footer", t.footer.toJson)]

/-! ### Reading -/

open Serde in
def Provenance.fromJson (v : Json) : Option Provenance := do
  match ← tagged "type" v with
  | ("unsigned", _) => some unsigned
  | ("signed", rest) =>
      match ← struct ["by", "sig"] rest with
      | [by_, sig] => some (signed (← required Json.asStr by_) (← required Json.asStr sig))
      | _ => none
  | ("onchain", rest) =>
      match ← struct ["chain", "block", "reference"] rest with
      | [chain, block, reference] =>
          some (onchain (← required Json.asStr chain) (← required Json.asU64 block)
            (← required Json.asStr reference))
      | _ => none
  | ("notarized", rest) =>
      match ← struct ["scheme", "reference"] rest with
      | [scheme, reference] =>
          some (notarized (← required Json.asStr scheme) (← required Json.asStr reference))
      | _ => none
  | _ => none

open Serde in
def CallDecision.fromJson (v : Json) : Option CallDecision := do
  match ← tagged "type" v with
  | ("allowed", _) => some allowed
  | ("rejected_by_schema", rest) =>
      match ← struct ["reason"] rest with
      | [reason] => some (rejectedBySchema (← required Json.asStr reason))
      | _ => none
  | ("denied_by_policy", rest) =>
      match ← struct ["reason"] rest with
      | [reason] => some (deniedByPolicy (← required Json.asStr reason))
      | _ => none
  | _ => none

open Serde in
def RunStatus.fromJson (v : Json) : Option RunStatus := do
  match ← tagged "type" v with
  | ("ok", _) => some ok
  | ("error", rest) =>
      match ← struct ["kind", "message"] rest with
      | [kind, message] =>
          some (error (← required Json.asStr kind) (← required Json.asStr message))
      | _ => none
  | _ => none

open Serde in
/-- A field that is not there takes core's default. -/
def VmSettings.fromJson (deps : Deps) (v : Json) : Option VmSettings := do
  let d := deps.vmDefault
  match ← structStrict ["gas_limit", "memory_limit_bytes", "max_call_depth", "max_tool_calls",
      "max_tool_bytes_in", "max_tool_bytes_out", "max_output_bytes"] v with
  | [gas, memory, depth, calls, bytesIn, bytesOut, output] =>
      some {
        gasLimit := ← defaulted Json.asU64 d.gasLimit gas
        memoryLimitBytes := ← defaulted Json.asU64 d.memoryLimitBytes memory
        maxCallDepth := ← defaulted Json.asU64 d.maxCallDepth depth
        maxToolCalls := ← defaulted Json.asU64 d.maxToolCalls calls
        maxToolBytesIn := ← defaulted Json.asU64 d.maxToolBytesIn bytesIn
        maxToolBytesOut := ← defaulted Json.asU64 d.maxToolBytesOut bytesOut
        maxOutputBytes := ← defaulted Json.asU64 d.maxOutputBytes output }
  | _ => none

open Serde in
def TraceHeader.fromJson (deps : Deps) (v : Json) : Option TraceHeader := do
  match ← struct ["trace_id", "session", "principal", "program_hash", "gateway_policy_hash",
      "description_hash", "vm_version", "vm_config", "request"] v with
  | [traceId, session, principal, program, policy, description, version, config, request] =>
      some {
        traceId := ← required Json.asStr traceId
        session := ← optional Json.asStr session
        principal := ← required Json.asStr principal
        programHash := ← required Json.asStr program
        gatewayPolicyHash := ← required Json.asStr policy
        descriptionHash := ← required Json.asStr description
        vmVersion := ← required Json.asStr version
        vmConfig := ← required (VmSettings.fromJson deps) config
        request := ← optional Json.asStr request }
  | _ => none

open Serde in
def TraceEntry.fromJson (deps : Deps) (v : Json) : Option TraceEntry := do
  match ← struct ["record", "decision", "provenance"] v with
  | [record, decision, provenance] =>
      some {
        record := ← required deps.recordFromJson record
        decision := ← required CallDecision.fromJson decision
        provenance := ← required Provenance.fromJson provenance }
  | _ => none

open Serde in
def TraceFooter.fromJson (v : Json) : Option TraceFooter := do
  match ← struct ["output", "status", "gas_used", "memory_used", "signature"] v with
  | [output, status, gas, memory, signature] =>
      some {
        output := ← optional Json.asStr output
        status := ← required RunStatus.fromJson status
        gasUsed := ← required Json.asU64 gas
        memoryUsed := ← required Json.asU64 memory
        signature := ← required Json.asStr signature }
  | _ => none

open Serde in
def Trace.fromJson (deps : Deps) (v : Json) : Option Trace := do
  match ← struct ["header", "entries", "footer"] v with
  | [header, entries, footer] =>
      some {
        header := ← required (TraceHeader.fromJson deps) header
        entries := ← required (seq (TraceEntry.fromJson deps)) entries
        footer := ← required TraceFooter.fromJson footer }
  | _ => none

/-- `serde_json::to_vec` and `serde_json::from_slice` of a trace. -/
def Trace.toVec (deps : Deps) (t : Trace) : ByteArray := (t.toJson deps).toVec

def Trace.fromSlice (deps : Deps) (bytes : ByteArray) : Option Trace := do
  Trace.fromJson deps (← Json.readSlice bytes)

/-! ### Signing -/

namespace Trace

/-- The trace with an empty signature. -/
def unsigned (t : Trace) : Trace := { t with footer := { t.footer with signature := "" } }

/-- SHA-256 of the JSON serialization, as it stands. -/
def digest (deps : Deps) (t : Trace) : Digest := deps.sha256 (t.toVec deps)

def sign (deps : Deps) (key : SigningKey) (t : Trace) : Trace :=
  let signature := deps.sign key (t.unsigned.digest deps)
  { t with footer := { t.footer with signature := Hex.encode signature.val } }

def verify (deps : Deps) (key : deps.VerifyingKey) (t : Trace) : Except TraceError Unit :=
  match Hex.decodeToSlice 64 t.footer.signature with
  | none => .error .malformedSignature
  | some signature =>
      if deps.verifyStrict key (t.unsigned.digest deps) signature then .ok ()
      else .error .signatureMismatch

end Trace

/-- Parse a hex-encoded 32-byte seed. -/
def signingKeyFromHex (hex : String) : Except TraceError SigningKey :=
  match Hex.decodeToSlice 32 hex with
  | some seed => .ok seed
  | none => .error .invalidSigningKey

/-! ### Round trips -/

/-- What the gateway relies on of core's record serializer: it writes nothing
but 64-bit integers, not too deep, and it reads back what it wrote. -/
structure RecordCodec (deps : Deps) : Prop where
  exact : ∀ r, (deps.recordToJson r).Exact
  shallow : ∀ r, (deps.recordToJson r).depth ≤ 16
  fromJson_toJson : ∀ r, deps.recordFromJson (deps.recordToJson r) = some r

@[simp] theorem Provenance.fromJson_toJson (p : Provenance) : fromJson p.toJson = some p := by
  cases p <;> rfl

@[simp] theorem CallDecision.fromJson_toJson (d : CallDecision) : fromJson d.toJson = some d := by
  cases d <;> rfl

@[simp] theorem RunStatus.fromJson_toJson (s : RunStatus) : fromJson s.toJson = some s := by
  cases s <;> rfl

@[simp] theorem VmSettings.fromJson_toJson (deps : Deps) (s : VmSettings) :
    fromJson deps s.toJson = some s := rfl

open Serde in
@[simp] theorem TraceHeader.fromJson_toJson (deps : Deps) (h : TraceHeader) :
    fromJson deps h.toJson = some h := by
  -- the fields are found by their names, and read one after the other
  have hread : fromJson deps h.toJson =
      (option Json.asStr (optStr h.session)).bind fun session =>
        (VmSettings.fromJson deps h.vmConfig.toJson).bind fun config =>
          (option Json.asStr (optStr h.request)).bind fun request =>
            some ⟨h.traceId, session, h.principal, h.programHash, h.gatewayPolicyHash,
              h.descriptionHash, h.vmVersion, config, request⟩ := rfl
  simp [hread]

open Serde in
@[simp] theorem TraceFooter.fromJson_toJson (f : TraceFooter) : fromJson f.toJson = some f := by
  have hread : fromJson f.toJson =
      (option Json.asStr (optStr f.output)).bind fun output =>
        (RunStatus.fromJson f.status.toJson).bind fun status =>
          some ⟨output, status, f.gasUsed, f.memoryUsed, f.signature⟩ := rfl
  simp [hread]

theorem TraceEntry.fromJson_toJson {deps : Deps} (codec : RecordCodec deps) (e : TraceEntry) :
    fromJson deps (e.toJson deps) = some e := by
  have hread : fromJson deps (e.toJson deps) =
      (deps.recordFromJson (deps.recordToJson e.record)).bind fun record =>
        (CallDecision.fromJson e.decision.toJson).bind fun decision =>
          (Provenance.fromJson e.provenance.toJson).bind fun provenance =>
            some ⟨record, decision, provenance⟩ := rfl
  simp [hread, codec.fromJson_toJson]

open Serde in
theorem Trace.fromJson_toJson {deps : Deps} (codec : RecordCodec deps) (t : Trace) :
    fromJson deps (t.toJson deps) = some t := by
  have he : seq (TraceEntry.fromJson deps) (.arr (t.entries.map (TraceEntry.toJson deps))) =
      some t.entries := seq_map fun e _ => TraceEntry.fromJson_toJson codec e
  have hread : fromJson deps (t.toJson deps) =
      (TraceHeader.fromJson deps t.header.toJson).bind fun header =>
        (seq (TraceEntry.fromJson deps) (.arr (t.entries.map (TraceEntry.toJson deps)))).bind
          fun entries => (TraceFooter.fromJson t.footer.toJson).bind fun footer =>
            some ⟨header, entries, footer⟩ := rfl
  simp [hread, he]

/-! ### What is written -/

section Written

open Json

@[simp] theorem Provenance.exact (p : Provenance) : p.toJson.Exact := by
  cases p <;> simp [toJson, exact_obj, exactMembers_cons, exactMembers_nil]

@[simp] theorem CallDecision.exact (d : CallDecision) : d.toJson.Exact := by
  cases d <;> simp [toJson, exact_obj, exactMembers_cons, exactMembers_nil]

@[simp] theorem RunStatus.exact (s : RunStatus) : s.toJson.Exact := by
  cases s <;> simp [toJson, exact_obj, exactMembers_cons, exactMembers_nil]

@[simp] theorem VmSettings.exact (s : VmSettings) : s.toJson.Exact := by
  simp [toJson, exact_obj, exactMembers_cons, exactMembers_nil]

@[simp] theorem TraceHeader.exact (h : TraceHeader) : h.toJson.Exact := by
  simp [toJson, exact_obj, exactMembers_cons, exactMembers_nil]

@[simp] theorem TraceFooter.exact (f : TraceFooter) : f.toJson.Exact := by
  simp [toJson, exact_obj, exactMembers_cons, exactMembers_nil]

variable {deps : Deps} (codec : RecordCodec deps)

include codec

theorem TraceEntry.exact (e : TraceEntry) : (e.toJson deps).Exact := by
  simp [toJson, exact_obj, exactMembers_cons, exactMembers_nil, codec.exact]

/-- Every number in a trace is a 64-bit integer. -/
theorem Trace.exact (t : Trace) : (t.toJson deps).Exact := by
  have he : ExactItems (t.entries.map (TraceEntry.toJson deps)) := by
    rw [exactItems_iff]
    intro v hv
    obtain ⟨e, -, rfl⟩ := List.mem_map.mp hv
    exact e.exact codec
  simp [toJson, exact_obj, exactMembers_cons, exactMembers_nil, exact_arr, he]

omit codec

@[simp] theorem Provenance.depth_toJson (p : Provenance) : p.toJson.depth = 1 := by
  cases p <;> simp [toJson, depth_obj, depthMembers_cons, depthMembers_nil]

@[simp] theorem CallDecision.depth_toJson (d : CallDecision) : d.toJson.depth = 1 := by
  cases d <;> simp [toJson, depth_obj, depthMembers_cons, depthMembers_nil]

@[simp] theorem RunStatus.depth_toJson (s : RunStatus) : s.toJson.depth = 1 := by
  cases s <;> simp [toJson, depth_obj, depthMembers_cons, depthMembers_nil]

@[simp] theorem VmSettings.depth_toJson (s : VmSettings) : s.toJson.depth = 1 := by
  simp [toJson, depth_obj, depthMembers_cons, depthMembers_nil]

@[simp] theorem TraceHeader.depth_toJson (h : TraceHeader) : h.toJson.depth = 2 := by
  simp [toJson, depth_obj, depthMembers_cons, depthMembers_nil]

@[simp] theorem TraceFooter.depth_toJson (f : TraceFooter) : f.toJson.depth = 2 := by
  simp [toJson, depth_obj, depthMembers_cons, depthMembers_nil]

include codec

theorem TraceEntry.depth_toJson (e : TraceEntry) : (e.toJson deps).depth ≤ 17 := by
  have hr := codec.shallow e.record
  simp [toJson, depth_obj, depthMembers_cons, depthMembers_nil]
  omega

/-- No trace is nested too deep to be read back. -/
theorem Trace.depth_toJson (t : Trace) : (t.toJson deps).depth ≤ recursionLimit := by
  have he : depthItems (t.entries.map (TraceEntry.toJson deps)) ≤ 17 := by
    rw [depthItems_le]
    intro v hv
    obtain ⟨e, -, rfl⟩ := List.mem_map.mp hv
    exact e.depth_toJson codec
  simp [toJson, depth_obj, depthMembers_cons, depthMembers_nil, depth_arr, recursionLimit]
  omega

/-- **What is stored reads back.** -/
theorem Trace.fromSlice_toVec (t : Trace) : fromSlice deps (t.toVec deps) = some t := by
  have hr : readSlice (t.toVec deps) = some (t.toJson deps) :=
    readSlice_toVec (t.exact codec) (t.depth_toJson codec)
  simp [fromSlice, hr, t.fromJson_toJson codec]

/-- **The stored bytes determine the trace.** -/
theorem Trace.toVec_injective {t t' : Trace} (h : t.toVec deps = t'.toVec deps) : t = t' := by
  have ht := t.fromSlice_toVec codec
  rw [h, t'.fromSlice_toVec codec] at ht
  exact (Option.some.inj ht).symm

end Written

end ProvenoGateway
