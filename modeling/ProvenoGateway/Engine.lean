/-
ProvenoGateway/Engine.lean

The execute engine (`engine.rs`): lint, compile, run, sign and store one
program.

`Engine.execute` is cut where the source cuts it.  `prepare` is everything up
to `spawn_blocking`; `runThread` is the closure that runs on the blocking
thread; `finish` is what follows the await.
-/
import ProvenoGateway.Description
import ProvenoGateway.Host

namespace ProvenoGateway

open Program

/-- The proveno-core release the VM comes from. -/
def vmVersion : String := "proveno-core v0.4.0"

structure ExecuteRequest where
  program : String
  session : Option String
  request : Option String

structure ExecuteResponse where
  result : Option Json
  traceId : String
  status : RunStatus

inductive ExecuteError
  | lint (e : LintError)
  | store (e : StoreError)

structure Engine where
  vm : VmSettings
  policy : Policy
  downstreams : Downstreams
  store : TraceStore
  signingKey : SigningKey

/-! ### The outcome of a run -/

/-- Canonical JSON of the return value, up to the output limit. -/
def outputJson (deps : Deps) (value : deps.Value) (maxOutputBytes : UInt64) :
    Except (VmError deps.Value) String :=
  match deps.canonicalSerialize value with
  | .error e => .error (deps.canonErrorToVm e)
  | .ok text =>
      if text.utf8ByteSize > maxOutputBytes.toNat then .error .outputExceeded else .ok text

def luaMessage (deps : Deps) (value : deps.Value) : String :=
  match deps.asString value with
  | some bytes => Text.fromUtf8Lossy bytes
  | none =>
      match deps.canonicalSerialize value with
      | .ok text => text
      | .error _ => deps.valueDebug value

/-- The kind and the message of an error.  A line inside the program is
reported against the agent's own numbering, a line inside the prelude is
dropped. -/
def errorParts (deps : Deps) (preludeLines : Nat) : VmError deps.Value → String × String
  | .withLine line inner =>
      let (kind, message) := errorParts deps preludeLines inner
      (kind, if line > preludeLines then s!"line {line - preludeLines}: {message}" else message)
  | .gasExhausted => ("GasExhausted", "gas exhausted")
  | .memoryExhausted => ("MemoryExhausted", "memory exhausted")
  | .callDepthExceeded => ("CallDepthExceeded", "call depth exceeded")
  | .typeError m => ("TypeError", m)
  | .runtimeError value => ("RuntimeError", luaMessage deps value)
  | .toolError m => ("ToolError", m)
  | .outputExceeded => ("OutputExceeded", "output exceeded")

def errorStatus (deps : Deps) (e : VmError deps.Value) (preludeLines : Nat) : RunStatus :=
  .error (errorParts deps preludeLines e).1 (errorParts deps preludeLines e).2

/-- Output, status and meters of a run, as the footer has them. -/
structure Outcome where
  output : Option String
  status : RunStatus
  gasUsed : UInt64
  memoryUsed : UInt64

/-- The mapping the engine and the replay share. -/
def outcome (deps : Deps) (e : VmEnd deps.Value) (maxOutputBytes : UInt64) (preludeLines : Nat) :
    Outcome :=
  match e.result with
  | .ok value =>
      match outputJson deps value maxOutputBytes with
      | .ok json => ⟨some json, .ok, e.gasUsed, e.memoryUsed⟩
      | .error error => ⟨none, errorStatus deps error preludeLines, e.gasUsed, e.memoryUsed⟩
  | .error error => ⟨none, errorStatus deps error preludeLines, e.gasUsed, e.memoryUsed⟩

namespace Engine

/-- The tools a principal is allowed, in the order of the discovered tools. -/
def allowedSchemas (engine : Engine) (principal : String) : List ToolSchema :=
  let allowed := engine.policy.allowedTools principal
  engine.downstreams.tools.filter fun t => allowed.contains t.qualifiedName

/-! ### Before the run -/

/-- What the run thread and the continuation are handed. -/
structure Prepared (deps : Deps) where
  principal : String
  session : Option String
  request : Option String
  program : deps.CompiledProgram
  programHash : String
  descriptionHash : String
  traceId : String
  host : GatewayHost
  preludeLines : Nat

/-- What is handed over for a program that compiled. -/
def preparedOf (deps : Deps) (engine : Engine) (principal : String) (req : ExecuteRequest)
    (program : deps.CompiledProgram) (traceId : String) : Prepared deps :=
  let allowed := engine.allowedSchemas principal
  let description := build deps allowed
  { principal := principal
    session := req.session
    request := req.request
    program := program
    programHash := Hex.encode (deps.programHash program).val
    descriptionHash := Hex.encode description.hash.val
    traceId := traceId
    host := GatewayHost.fresh principal engine.downstreams allowed engine.policy
    preludeLines := Text.count '\n' description.prelude % 2 ^ 32 }

/-- A source with the same hash that is already stored is kept: it compiles
to the same hash. -/
def ignoreConflict : Except StoreError Unit → Except StoreError Unit
  | .error (.conflict _ _) => .ok ()
  | result => result

def prepare (deps : Deps) (engine : Engine) (principal : String) (req : ExecuteRequest) :
    Gateway (Except ExecuteError (Prepared deps)) :=
  let allowed := engine.allowedSchemas principal
  let description := build deps allowed
  match compileProgram deps description.prelude req.program with
  | .panic message => panicWith message
  | .lint e => pure (.error (.lint e))
  | .ok program => do
      let programHash := Hex.encode (deps.programHash program).val
      let descriptionHash := Hex.encode description.hash.val
      let source := description.prelude ++ req.program
      match ignoreConflict (← engine.store.putProgram programHash source) with
      | .error e => pure (.error (.store e))
      | .ok () =>
          match ← engine.store.putDescription descriptionHash description.text with
          | .error e => pure (.error (.store e))
          | .ok () => do
              let traceId ← uuidNow
              pure (.ok (engine.preparedOf deps principal req program traceId))

/-! ### The run -/

/-- What the run thread returns. -/
structure RunResult where
  entries : List TraceEntry
  outcome : Outcome

/-- Joins each record with the log entry of the same position. -/
def zipEntries (transcript : List ToolCallRecord) (log : List (CallDecision × Provenance)) :
    List TraceEntry :=
  transcript.zipWith (fun record entry => ⟨record, entry.1, entry.2⟩) log

def runThread (deps : Deps) (engine : Engine) (prepared : Prepared deps) : Gateway RunResult := do
  let run := deps.execute prepared.program (VmConfig.ofSettings engine.vm)
  let (e, host, transcript) ← drive deps (GatewayHost.interface deps) run prepared.host []
  if transcript.length = host.log.length then
    pure ⟨zipEntries transcript host.log,
      outcome deps e engine.vm.maxOutputBytes prepared.preludeLines⟩
  else
    panicWith s!"bug: core recorded {transcript.length} tool calls but the host saw {host.log.length}"

/-! ### After the run -/

/-- The trace of a run, not signed yet. -/
def traceOf (deps : Deps) (engine : Engine) (prepared : Prepared deps) (run : RunResult) : Trace where
  header := {
    traceId := prepared.traceId
    session := prepared.session
    principal := prepared.principal
    programHash := prepared.programHash
    gatewayPolicyHash := Hex.encode (engine.policy.policyHash deps).val
    descriptionHash := prepared.descriptionHash
    vmVersion := vmVersion
    vmConfig := engine.vm
    request := prepared.request }
  entries := run.entries
  footer := {
    output := run.outcome.output
    status := run.outcome.status
    gasUsed := run.outcome.gasUsed
    memoryUsed := run.outcome.memoryUsed
    signature := "" }

/-- What is returned once the trace has been put, or could not be. -/
def respond (deps : Deps) (prepared : Prepared deps) (trace : Trace) (status : RunStatus) :
    Except StoreError Unit → Gateway (Except ExecuteError ExecuteResponse)
  | .error e => pure (.error (.store e))
  | .ok () =>
      match trace.footer.output with
      | none => pure (.ok ⟨none, prepared.traceId, status⟩)
      | some json =>
          match deps.fromStr json with
          | .ok value => pure (.ok ⟨some value, prepared.traceId, status⟩)
          | .error e => panicWith s!"canonical output is valid JSON: {e}"

def finish (deps : Deps) (engine : Engine) (prepared : Prepared deps) (run : RunResult) :
    Gateway (Except ExecuteError ExecuteResponse) :=
  let trace := (traceOf deps engine prepared run).sign deps engine.signingKey
  engine.store.putTrace deps trace >>= respond deps prepared trace run.outcome.status

/-- Runs one program and stores its signed trace. -/
def execute (deps : Deps) (engine : Engine) (principal : String) (req : ExecuteRequest) :
    Gateway (Except ExecuteError ExecuteResponse) :=
  (engine.prepare deps principal req).andThen fun prepared =>
    engine.runThread deps prepared >>= engine.finish deps prepared

end Engine

end ProvenoGateway
