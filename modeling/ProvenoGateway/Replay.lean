/-
ProvenoGateway/Replay.lean

Offline replay of a stored trace (`replay.rs`): the stored program is run
again over core's strict tape host, with the VM limits of the header, and the
result is compared with the footer.
-/
import ProvenoGateway.Engine

namespace ProvenoGateway

open Program

structure ReplayReport where
  traceId : String
  matched : Bool
  mismatches : List String
  output : Option String
  status : RunStatus
  gasUsed : UInt64
  memoryUsed : UInt64

/-- Why a replay did not take place: what was being done, and the error. -/
inductive ReplayCause
  | config (e : ConfigError)
  | store (e : StoreError)
  | trace (e : TraceError)
  | program

structure ReplayError where
  context : String
  cause : ReplayCause

/-- The status compared by replay: not the message. -/
def statusKind : RunStatus → String
  | .ok => "ok"
  | .error kind _ => kind

def describeCall (call : TapeCall) : String :=
  s!"{call.toolName} {Text.fromUtf8Lossy call.argsCanonical}"

/-- The strict tape as core's host. -/
def tapeInterface (deps : Deps) : HostInterface Op Res deps.Table deps.Tape where
  callTool tape name args := pure (deps.tapeCall tape name args)
  takeAttestation := deps.tapeTakeAttestation

/-- The stored program, compiled and verified. -/
def recompile (deps : Deps) (programHash source : String) :
    Except ReplayError deps.CompiledProgram :=
  match deps.parse source with
  | .error e => .error ⟨s!"program {programHash}: line {e.line}: {e.message}", .program⟩
  | .ok block =>
      match deps.compile block with
      | .error e => .error ⟨s!"program {programHash}: {e.message}", .program⟩
      | .ok program =>
          match deps.verify program with
          | .error e => .error ⟨s!"program {programHash}: bytecode verification: {e}", .program⟩
          | .ok () => .ok program

/-- Every way the replay departs from the recording, in the order of the
source. -/
def mismatches (deps : Deps) (trace : Trace) (programHash : String) (tape : deps.Tape)
    (out : Outcome) : List String :=
  let header := trace.header
  let footer := trace.footer
  (if programHash ≠ header.programHash then
    [s!"program_hash: header has {header.programHash}, stored source compiles to {programHash}"]
    else []) ++
  (match deps.tapeDivergence tape with
    | some d =>
        let expected := (d.expected.map describeCall).getD "no recorded call"
        [s!"divergence at seq {d.seq}: expected {expected}, actual {describeCall d.actual}"]
    | none => []) ++
  (if deps.tapeRemaining tape > 0 then
    [s!"tape: {deps.tapeRemaining tape} of {trace.entries.length} recorded calls left unconsumed"]
    else []) ++
  (if out.output ≠ footer.output then
    let recorded := footer.output.getD "none"
    let replayed := out.output.getD "none"
    [s!"output: recorded {recorded}, replayed {replayed}"]
    else []) ++
  (if statusKind out.status ≠ statusKind footer.status then
    [s!"status: recorded {statusKind footer.status}, replayed {statusKind out.status}"]
    else []) ++
  (if out.gasUsed ≠ footer.gasUsed then
    [s!"gas_used: recorded {footer.gasUsed}, replayed {out.gasUsed}"] else []) ++
  (if out.memoryUsed ≠ footer.memoryUsed then
    [s!"memory_used: recorded {footer.memoryUsed}, replayed {out.memoryUsed}"] else [])

/-- Running the recompiled program over the tape and comparing. -/
def rerun (deps : Deps) (traceId : String) (trace : Trace) (program : deps.CompiledProgram) :
    Gateway ReplayReport := do
  let programHash := Hex.encode (deps.programHash program).val
  let records := trace.entries.map TraceEntry.record
  let run := deps.execute program (VmConfig.ofSettings trace.header.vmConfig)
  let (e, tape, _) ← drive deps (tapeInterface deps) run (deps.tapeStrict records) []
  let out := outcome deps e trace.header.vmConfig.maxOutputBytes 0
  let found := mismatches deps trace programHash tape out
  pure ⟨traceId, found.isEmpty, found, out.output, out.status, out.gasUsed, out.memoryUsed⟩

/-- The key of a configuration. -/
def replayKey (env : String → Option String) (config : GatewayConfig) :
    Except ReplayError SigningKey :=
  match config.server.signingKey.resolve env with
  | .error e => .error ⟨"server.signing_key", .config e⟩
  | .ok hex =>
      match signingKeyFromHex hex with
      | .error e => .error ⟨"server.signing_key", .trace e⟩
      | .ok key => .ok key

/-- Replay with the key and the store at hand. -/
def replayWith (deps : Deps) (key : SigningKey) (store : TraceStore) (traceId : String) :
    Gateway (Except ReplayError ReplayReport) := do
  match ← store.getTrace deps traceId with
  | .error e => pure (.error ⟨s!"trace {traceId}", .store e⟩)
  | .ok trace =>
      match trace.verify deps (deps.verifyingKey key) with
      | .error e =>
          pure (.error ⟨s!"trace {traceId}: signature verification failed", .trace e⟩)
      | .ok () => do
          match ← store.getProgram trace.header.programHash with
          | .error e => pure (.error ⟨s!"program {trace.header.programHash}", .store e⟩)
          | .ok source =>
              match recompile deps trace.header.programHash source with
              | .error e => pure (.error e)
              | .ok program => do
                  let report ← rerun deps traceId trace program
                  pure (.ok report)

/-- Replays `traceId` with no downstream connection. -/
def replay (deps : Deps) (env : String → Option String) (config : GatewayConfig)
    (traceId : String) : Gateway (Except ReplayError ReplayReport) :=
  match replayKey env config with
  | .error e => pure (.error e)
  | .ok key => do
      match ← TraceStore.openDir config.store.dir with
      | .error e => pure (.error ⟨s!"store {config.store.dir}", .store e⟩)
      | .ok store => replayWith deps key store traceId

end ProvenoGateway
