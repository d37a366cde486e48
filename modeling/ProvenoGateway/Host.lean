/-
ProvenoGateway/Host.lean

The gateway's `HostInterface` (`host.rs`): schema, policy, dispatch, record.

`callTool` is the four stages in the order of the source, each refusal a
separate exit, then the dispatch.  The host is passed through: its log grows
by one entry for each call, and `attestation` is the one-slot field core
empties with `takeAttestation` after a call that succeeded.
-/
import ProvenoGateway.Downstream
import ProvenoGateway.Policy
import ProvenoGateway.Values

namespace ProvenoGateway

structure GatewayHost where
  principal : String
  downstreams : Downstreams
  allowed : List ToolSchema
  policy : Policy
  log : List (CallDecision × Provenance)
  attestation : Option ByteArray

namespace GatewayHost

/-- `GatewayHost::new`. -/
def fresh (principal : String) (downstreams : Downstreams) (allowed : List ToolSchema)
    (policy : Policy) : GatewayHost :=
  ⟨principal, downstreams, allowed, policy, [], none⟩

/-- One more entry in the log. -/
def push (host : GatewayHost) (decision : CallDecision) (provenance : Provenance) : GatewayHost :=
  { host with log := host.log ++ [(decision, provenance)] }

def refuse {α : Type} (host : GatewayHost) (decision : CallDecision) (message : String) :
    Except String α × GatewayHost :=
  (.error message, host.push decision .unsigned)

/-- Turns a dispatched call into the table the program sees, plus the tag and
the blob that only the trace sees.  A response core could not canonicalise is
refused here, so that it is recorded as an error. -/
def accept (deps : Deps) (name : String) (response : Except String ToolResponse) :
    Except String (deps.Table × Provenance × ByteArray) := do
  let response ← response.mapError fun e => s!"downstream: {e}"
  let table ← (jsonToTable deps response.value).mapError fun e => s!"downstream: {name}: {e}"
  match deps.canonicalSerializeTable table with
  | .error e =>
      .error s!"downstream: {name}: response cannot be recorded: {deps.canonErrorDebug e}"
  | .ok _ => .ok (table, response.provenance, response.attestation)

/-- What the host does with the answer to a dispatched call. -/
def conclude (deps : Deps) (host : GatewayHost) (name : String)
    (response : Except String ToolResponse) : Except String deps.Table × GatewayHost :=
  match accept deps name response with
  | .ok (table, provenance, attestation) =>
      (.ok table,
        { host.push .allowed provenance with
          attestation := (some attestation).filter fun a => !a.isEmpty })
  | .error e => (.error e, host.push .allowed .unsigned)

def callTool (deps : Deps) (host : GatewayHost) (name : String) (args : deps.Table) :
    Gateway (Except String deps.Table × GatewayHost) :=
  let host := { host with attestation := none }
  match tableToJson deps args with
  | .error e =>
      let reason := s!"{name}: {e}"
      pure (host.refuse (.rejectedBySchema reason) s!"schema: {reason}")
  | .ok args =>
  match host.allowed.find? fun t => t.qualifiedName = name with
  | none =>
      let reason := s!"tool {name} is not allowed for {host.principal}"
      pure (host.refuse (.deniedByPolicy reason) s!"policy: {reason}")
  | some tool =>
  match checkArgs deps tool args with
  | .error reason => pure (host.refuse (.rejectedBySchema reason) s!"schema: {reason}")
  | .ok () =>
  match host.policy.check host.principal name args with
  | .deny reason => pure (host.refuse (.deniedByPolicy reason) s!"policy: {reason}")
  | .allow => do
      let response ← host.downstreams.call deps name args
      pure (host.conclude deps name response)

/-- Core asks for the blob straight after a call that returned a table. -/
def takeAttestation (host : GatewayHost) : Option ByteArray × GatewayHost :=
  (host.attestation, { host with attestation := none })

/-- The gateway as core's host. -/
def interface (deps : Deps) : HostInterface Op Res deps.Table GatewayHost where
  callTool := callTool deps
  takeAttestation := takeAttestation

end GatewayHost

end ProvenoGateway
