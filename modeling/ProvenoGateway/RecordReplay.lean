/-
ProvenoGateway/RecordReplay.lean

Record, then replay: the two agree.

A run against the gateway's host is a `Recording`.  The replay runs a program
of the same hash against the strict tape of the records of that run.  The two
go in lockstep (`Recording.replays`, an induction on the recording): at each
call the tape stands at the record of that call and answers as the host did,
up to the detour of a table through its canonical JSON; so both runs go on
alike and end alike, and the tape is used up.

What core is relied on for is stated first.  `decode` reads the table a
canonical JSON stands for.
-/
import ProvenoGateway.Integrity
import ProvenoGateway.Replay

namespace ProvenoGateway

open Program Interleave

/-! ### Runs that a program cannot tell apart -/

section Alike

variable (deps : Deps) (decode : String → deps.Table)

/-- Errors that differ in line numbers, and in a value that is written the
same. -/
inductive VmError.Alike : VmError deps.Value → VmError deps.Value → Prop
  | refl (e : VmError deps.Value) : Alike e e
  | withLine (line line' : Nat) {e e' : VmError deps.Value} :
      Alike e e' → Alike (.withLine line e) (.withLine line' e')
  | runtimeError {v v' : deps.Value} :
      deps.canonicalSerialize v = deps.canonicalSerialize v' →
      Alike (.runtimeError v) (.runtimeError v')

/-- Runs that end with the same meters, in values written the same or in
errors alike. -/
inductive VmEnd.Alike : VmEnd deps.Value → VmEnd deps.Value → Prop
  | ok {v v' : deps.Value} (gas memory : UInt64) :
      deps.canonicalSerialize v = deps.canonicalSerialize v' →
      Alike ⟨.ok v, gas, memory⟩ ⟨.ok v', gas, memory⟩
  | error {e e' : VmError deps.Value} (gas memory : UInt64) :
      e.Alike deps e' → Alike ⟨.error e, gas, memory⟩ ⟨.error e', gas, memory⟩

/-- An answer, and what a replay is handed for it: a table takes the detour
through its canonical JSON. -/
inductive Handed : Except String deps.Table → Except String deps.Table → Prop
  | error (e : String) : Handed (.error e) (.error e)
  | ok (t : deps.Table) (text : String) : deps.canonicalSerializeTable t = .ok text →
      Handed (.ok t) (.ok (decode text))

/-- Runs that make the same calls and end alike, whatever the first one is
answered and the second one is handed for it. -/
inductive VmRun.Alike : VmRun deps.Value deps.Table → VmRun deps.Value deps.Table → Prop
  | done {e e' : VmEnd deps.Value} : e.Alike deps e' → Alike (.done e) (.done e')
  | call (name : String) {args args' : deps.Table}
      (record record' : Except String deps.Table → ByteArray → ToolCallRecord)
      {next next' : Except String deps.Table → VmRun deps.Value deps.Table} :
      deps.argsCanonical args = deps.argsCanonical args' →
      (∀ answer answer', Handed deps decode answer answer' → Alike (next answer) (next' answer')) →
      Alike (.call name args record next) (.call name args' record' next')

/-! ### What core is relied on for -/

/-- The record of a call: its name, its arguments and its answer. -/
structure RecordsCall (name : String) (args : deps.Table)
    (record : Except String deps.Table → ByteArray → ToolCallRecord) : Prop where
  toolName : ∀ answer blob, (record answer blob).toolName = name
  argsCanonical : ∀ answer blob, (record answer blob).argsCanonical = deps.argsCanonical args
  error : ∀ e blob, (record (.error e) blob).status = .error ∧
    (record (.error e) blob).errorMessage = e
  ok : ∀ t text blob, deps.canonicalSerializeTable t = .ok text →
    (record (.ok t) blob).status = .ok ∧ (record (.ok t) blob).responseCanonical = text.toUTF8

/-- The VM: a run is a function of the hashed bytecode, the limits and the
answers, and each call is recorded. -/
structure CoreVm : Prop where
  determined : ∀ program program' config, deps.programHash program = deps.programHash program' →
    (deps.execute program config).Alike deps decode (deps.execute program' config)
  records : ∀ program config, (deps.execute program config).EachCall (RecordsCall deps)

/-- The strict tape, where `At tape records` says that these records are still
to be answered and nothing has diverged. -/
structure StrictTape (At : deps.Tape → List ToolCallRecord → Prop) : Prop where
  start : ∀ records, At (deps.tapeStrict records) records
  error : ∀ tape r rest args, At tape (r :: rest) → r.argsCanonical = deps.argsCanonical args →
    r.status = .error → ∃ tape',
      deps.tapeCall tape r.toolName args = (.error r.errorMessage, tape') ∧ At tape' rest
  ok : ∀ tape r rest args t text, At tape (r :: rest) →
    r.argsCanonical = deps.argsCanonical args → r.status = .ok →
    deps.canonicalSerializeTable t = .ok text → r.responseCanonical = text.toUTF8 → ∃ tape',
      deps.tapeCall tape r.toolName args = (.ok (decode text), tape') ∧ At tape' rest
  take : ∀ tape records, At tape records → At (deps.tapeTakeAttestation tape).2 records
  divergence : ∀ tape records, At tape records → deps.tapeDivergence tape = none
  remaining : ∀ tape records, At tape records → deps.tapeRemaining tape = records.length

end Alike

/-! ### Lockstep -/

section Lockstep

variable {deps : Deps} {decode : String → deps.Table}
  {At : deps.Tape → List ToolCallRecord → Prop}

/-- The tape answers a recorded call as the host did. -/
theorem StrictTape.answers (tapes : StrictTape deps decode At) {name : String}
    {args args' : deps.Table} {record : Except String deps.Table → ByteArray → ToolCallRecord}
    (hrecord : RecordsCall deps name args record)
    (hargs : deps.argsCanonical args = deps.argsCanonical args')
    {answer : Except String deps.Table}
    (hanswer : ∀ t, answer = .ok t → ∃ text, deps.canonicalSerializeTable t = .ok text)
    {blob : ByteArray} {rest : List ToolCallRecord} {tape : deps.Tape}
    (htape : At tape (record answer blob :: rest)) :
    ∃ answer' tape', deps.tapeCall tape name args' = (answer', tape') ∧
      Handed deps decode answer answer' ∧ At tape' rest := by
  have hname := hrecord.toolName answer blob
  have hsame : (record answer blob).argsCanonical = deps.argsCanonical args' := by
    rw [hrecord.argsCanonical, hargs]
  cases answer with
  | error e =>
    obtain ⟨hstatus, hmessage⟩ := hrecord.error e blob
    obtain ⟨tape', hcall, htape'⟩ := tapes.error tape _ rest args' htape hsame hstatus
    rw [hname, hmessage] at hcall
    exact ⟨_, tape', hcall, .error e, htape'⟩
  | ok t =>
    obtain ⟨text, htext⟩ := hanswer t rfl
    obtain ⟨hstatus, hresponse⟩ := hrecord.ok t text blob htext
    obtain ⟨tape', hcall, htape'⟩ :=
      tapes.ok tape _ rest args' t text htape hsame hstatus htext hresponse
    rw [hname] at hcall
    exact ⟨_, tape', hcall, .ok t text htext, htape'⟩

/-- **Lockstep.**  A run like a recorded one, against the tape of its records,
ends like it and uses the tape up. -/
theorem Recording.replays (tapes : StrictTape deps decode At)
    {run : VmRun deps.Value deps.Table} {host last : GatewayHost} {calls : List (Recorded deps)}
    {e : VmEnd deps.Value} (h : Recording deps run host calls e last)
    (hrecords : run.EachCall (RecordsCall deps)) {run' : VmRun deps.Value deps.Table}
    (halike : run.Alike deps decode run') {tape : deps.Tape}
    (htape : At tape (calls.map Recorded.record)) (transcript : List ToolCallRecord) :
    ∃ e' tape' transcript',
      drive deps (tapeInterface deps) run' tape transcript = .ret (e', tape', transcript') ∧
        e.Alike deps e' ∧ At tape' [] := by
  induction h generalizing run' tape transcript with
  | done e host =>
    cases halike with
    | done he => exact ⟨_, tape, transcript, rfl, he, htape⟩
  | @call c record next rest e last hok hrest ih =>
    cases halike with
    | @call _ _ args' _ record' _ next' hargs hnext =>
      obtain ⟨answer', tape₁, hcall, hhanded, htape₁⟩ :=
        tapes.answers hrecords.1 hargs (fun t => hok.canonical) htape
      have hnext₁ := hnext c.answer answer' hhanded
      rw [drive_call]
      show ∃ e' tape' transcript', Program.bind (pure (deps.tapeCall tape c.name args')) _ = _ ∧ _
      rw [hcall]
      have hrecords₁ := hrecords.2 c.answer
      cases answer' with
      | error err => exact ih hrecords₁ hnext₁ htape₁ _
      | ok t => exact ih hrecords₁ hnext₁ (tapes.take _ _ htape₁) _

/-! ### The outcome -/

theorem VmError.Alike.kind {e e' : VmError deps.Value} (h : e.Alike deps e') (n n' : Nat) :
    (errorParts deps n e).1 = (errorParts deps n' e').1 := by
  induction h with
  | refl e =>
    induction e with
    | withLine line inner ih => exact ih
    | _ => rfl
  | withLine line line' _ ih => exact ih
  | runtimeError _ => rfl

/-- The footer is compared up to the message of an error. -/
structure Outcome.Alike (out out' : Outcome) : Prop where
  output : out.output = out'.output
  status : statusKind out.status = statusKind out'.status
  gasUsed : out.gasUsed = out'.gasUsed
  memoryUsed : out.memoryUsed = out'.memoryUsed

theorem VmEnd.Alike.outcome {e e' : VmEnd deps.Value} (h : e.Alike deps e') (limit : UInt64)
    (n n' : Nat) : (outcome deps e limit n).Alike (outcome deps e' limit n') := by
  cases h with
  | @ok v v' gas memory hvalue =>
    have houtput : outputJson deps v limit = outputJson deps v' limit := by
      rw [outputJson, outputJson, hvalue]
    cases hv : outputJson deps v' limit with
    | ok json =>
      rw [hv] at houtput
      simp only [ProvenoGateway.outcome, houtput, hv]
      exact ⟨rfl, rfl, rfl, rfl⟩
    | error error =>
      rw [hv] at houtput
      simp only [ProvenoGateway.outcome, houtput, hv]
      exact ⟨rfl, (VmError.Alike.refl error).kind n n', rfl, rfl⟩
  | error gas memory he => exact ⟨rfl, he.kind n n', rfl, rfl⟩

/-- The outcome in a footer. -/
def TraceFooter.outcome (footer : TraceFooter) : Outcome :=
  ⟨footer.output, footer.status, footer.gasUsed, footer.memoryUsed⟩

/-- Nothing to report. -/
theorem mismatches_nil (tapes : StrictTape deps decode At) {t : Trace} {programHash : String}
    {tape : deps.Tape} {out : Outcome} (hhash : programHash = t.header.programHash)
    (htape : At tape []) (hout : t.footer.outcome.Alike out) :
    mismatches deps t programHash tape out = [] := by
  have hdivergence := tapes.divergence tape [] htape
  have hremaining := tapes.remaining tape [] htape
  have houtput : out.output = t.footer.output := hout.output.symm
  have hstatus : statusKind out.status = statusKind t.footer.status := hout.status.symm
  have hgas : out.gasUsed = t.footer.gasUsed := hout.gasUsed.symm
  have hmemory : out.memoryUsed = t.footer.memoryUsed := hout.memoryUsed.symm
  simp [mismatches, hhash, hdivergence, hremaining, houtput, hstatus, hgas, hmemory]

end Lockstep

/-! ### Replaying a signed run -/

section Replays

variable {deps : Deps} {key : SigningKey} {decode : String → deps.Table}
  {At : deps.Tape → List ToolCallRecord → Prop}

/-- The report says what the footer says. -/
structure Agrees (t : Trace) (report : ReplayReport) : Prop where
  matched : report.matched = true
  mismatches : report.mismatches = []
  output : report.output = t.footer.output
  status : statusKind report.status = statusKind t.footer.status
  gasUsed : report.gasUsed = t.footer.gasUsed
  memoryUsed : report.memoryUsed = t.footer.memoryUsed

theorem map_record_zipEntries {transcript : List ToolCallRecord}
    {log : List (CallDecision × Provenance)} (h : transcript.length = log.length) :
    (Engine.zipEntries transcript log).map TraceEntry.record = transcript := by
  induction transcript generalizing log with
  | nil => rfl
  | cons r transcript ih =>
    cases log with
    | nil => cases h
    | cons entry log =>
      have hlength : transcript.length = log.length := Nat.succ.inj h
      show r :: (Engine.zipEntries transcript log).map TraceEntry.record = r :: transcript
      rw [ih hlength]

/-- What the run thread returns, call by call. -/
structure Transcribed (engine : Engine) (prepared : Engine.Prepared deps)
    (evs : List (Event Op Res)) (run : Engine.RunResult) (calls : List (Recorded deps))
    (e : VmEnd deps.Value) (last : GatewayHost) : Prop where
  recording : Recording deps (deps.execute prepared.program (VmConfig.ofSettings engine.vm))
    prepared.host calls e last
  events : evs = (calls.map fun c => c.step.events).flatten
  length : (calls.map Recorded.record).length = last.log.length
  entries : run.entries = Engine.zipEntries (calls.map Recorded.record) last.log
  outcome : run.outcome = outcome deps e engine.vm.maxOutputBytes prepared.preludeLines

theorem runThread_runs {engine : Engine} {prepared : Engine.Prepared deps}
    {evs : List (Event Op Res)} {run : Engine.RunResult}
    (h : Runs (engine.runThread deps prepared) evs run) :
    ∃ calls e last, Transcribed engine prepared evs run calls e last := by
  obtain ⟨⟨e, last, transcript⟩, evs₁, evs₂, rfl, h₁, h₂⟩ := runs_bind_iff.mp h
  obtain ⟨calls, hrecording, htranscript, hevents⟩ := drive_recording h₁
  rw [List.nil_append] at htranscript
  subst htranscript
  dsimp only at h₂
  split at h₂
  case isTrue hlength =>
    obtain ⟨rfl, rfl⟩ := runs_ret_iff.mp h₂
    exact ⟨calls, e, last, hrecording, by rw [List.append_nil, hevents], hlength, rfl, rfl⟩
  case isFalse => cases h₂ with
    | call o next r _ => exact nomatch r

/-- What a replay reads of a trace does not depend on the signature. -/
theorem Trace.parts_of_unsigned {t t' : Trace} (h : t.unsigned = t'.unsigned) :
    t.header = t'.header ∧ t.entries = t'.entries ∧ t.footer.outcome = t'.footer.outcome := by
  have hheader : t.unsigned.header = t'.unsigned.header := congrArg Trace.header h
  have hentries : t.unsigned.entries = t'.unsigned.entries := congrArg Trace.entries h
  have hfooter : t.unsigned.footer.outcome = t'.unsigned.footer.outcome :=
    congrArg (fun u : Trace => u.footer.outcome) h
  exact ⟨hheader, hentries, hfooter⟩

/-- A signed run, run again from any program of the same hash, agrees with its
footer; the signature itself plays no part. -/
theorem SignedRun.rerun (vm : CoreVm deps decode) (tapes : StrictTape deps decode At)
    {engine : Engine} {prepared : Engine.Prepared deps} {run : Engine.RunResult} {t t₀ : Trace}
    (h : SignedRun deps key engine prepared run t₀) (hunsigned : t.unsigned = t₀.unsigned)
    {program : deps.CompiledProgram}
    (hhash : Hex.encode (deps.programHash program).val = t.header.programHash) (traceId : String) :
    ∃ report, ProvenoGateway.rerun deps traceId t program = .ret report ∧ Agrees t report := by
  obtain ⟨evs, hran⟩ := h.ran
  obtain ⟨calls, e, last, htranscribed⟩ := runThread_runs hran
  have htrace : t.unsigned = (engine.traceOf deps prepared run).unsigned := by
    rw [hunsigned, h.signed]
    rfl
  obtain ⟨hheader, hsame, hfooter⟩ := Trace.parts_of_unsigned htrace
  have hconfig : t.header.vmConfig = engine.vm := by rw [hheader]; rfl
  have hfooter : t.footer.outcome = run.outcome := hfooter
  have hrecords : t.entries.map TraceEntry.record = calls.map Recorded.record := by
    rw [hsame]
    show run.entries.map TraceEntry.record = _
    rw [htranscribed.entries]
    exact map_record_zipEntries htranscribed.length
  -- the same bytecode, so the same run
  have hbytecode : deps.programHash prepared.program = deps.programHash program := by
    have hprogram : t.header.programHash = prepared.programHash := by rw [hheader]; rfl
    rw [hprogram, h.ready.programHash] at hhash
    exact Subtype.ext (Hex.encode_injective hhash.symm)
  obtain ⟨e', tape', transcript', hdrive, halike, hend⟩ := htranscribed.recording.replays tapes
    (vm.records _ _) (vm.determined _ program _ hbytecode) (tapes.start _) []
  have hout : t.footer.outcome.Alike (outcome deps e' engine.vm.maxOutputBytes 0) := by
    rw [hfooter, htranscribed.outcome]
    exact halike.outcome _ _ _
  have hnil := mismatches_nil tapes hhash hend hout
  have hrerun : ProvenoGateway.rerun deps traceId t program = .ret
      ⟨traceId, true, [], (outcome deps e' engine.vm.maxOutputBytes 0).output,
        (outcome deps e' engine.vm.maxOutputBytes 0).status,
        (outcome deps e' engine.vm.maxOutputBytes 0).gasUsed,
        (outcome deps e' engine.vm.maxOutputBytes 0).memoryUsed⟩ := by
    unfold ProvenoGateway.rerun
    dsimp only
    rw [hconfig, hrecords, hdrive]
    show Program.ret _ = _
    rw [hnil]
    rfl
  exact ⟨_, hrerun, rfl, rfl, hout.output.symm, hout.status.symm, hout.gasUsed.symm,
    hout.memoryUsed.symm⟩

/-! ### Replay from the store -/

theorem recompile_eq_ok {programHash source : String} {program : deps.CompiledProgram} :
    recompile deps programHash source = .ok program ↔ compileText deps source = some program := by
  unfold recompile compileText
  cases deps.parse source with
  | error e => simp
  | ok block =>
    cases hc : deps.compile block with
    | error e => simp [hc]
    | ok compiled => cases hv : deps.verify compiled <;> simp [hc, hv]

/-- A replay that nothing disturbs: what it reads, and what it makes of it. -/
theorem alone_replay {i pid : Nat} {w : World} {env : String → Option String}
    {config : GatewayConfig} {t : Trace} {source : String} {program : deps.CompiledProgram}
    {report : ReplayReport} {traceId : String} (hkey : replayKey env config = .ok key)
    (htrace : ∃ bytes, Holds w (TraceStore.under config.store.dir).traces traceId "json" bytes ∧
      Trace.fromSlice deps bytes = some t)
    (hverify : t.verify deps (deps.verifyingKey key) = .ok ())
    (hprogram : Holds w (TraceStore.under config.store.dir).programs t.header.programHash "lua"
      source.toUTF8)
    (hcompile : compileText deps source = some program)
    (hrerun : rerun deps traceId t program = .ret report) :
    World.alone i pid (replay deps env config traceId) w = some (.ok report, w) := by
  obtain ⟨bytes, ⟨p, hp, hfile⟩, ht⟩ := htrace
  obtain ⟨q, hq, hsource⟩ := hprogram
  have hrecompile : recompile deps t.header.programHash source = .ok program :=
    recompile_eq_ok.mpr hcompile
  have hutf8 : String.fromUTF8? source.toByteArray = some source := Json.fromUTF8_toUTF8 source
  simp [replay, hkey, TraceStore.openDir, replayWith, TraceStore.getTrace, hp, hfile, ht, hverify,
    TraceStore.getProgram, hq, readToString, hsource, hutf8, hrecompile, hrerun,
    World.alone, World.step]

end Replays

/-- Whatever executes of engines with one key did to an empty store, through
faults and crashes: every stored trace replays to what its footer says. -/
theorem record_then_replay {deps : Deps} {key : SigningKey} {decode : String → deps.Table}
    {At : deps.Tape → List ToolCallRecord → Prop} (codec : RecordCodec deps) (ed : Ed25519 deps)
    (vm : CoreVm deps decode) (tapes : StrictTape deps decode At) {env : String → Option String}
    {config : GatewayConfig} (hkey : replayKey env config = .ok key)
    {x : Pool Op Res Nat (Except ExecuteError ExecuteResponse) × World}
    (h : Steps (executes deps key config.store.dir) (Pool.empty, World.empty) x) {p : Path}
    {bytes : ByteArray} (hp : p.parent = (TraceStore.under config.store.dir).traces)
    (hname : ¬ p.IsTmp) (hfile : x.2.files p = some bytes) (i pid : Nat) :
    ∃ t, Trace.fromSlice deps bytes = some t ∧
      keyPath (TraceStore.under config.store.dir).traces t.header.traceId "json" = .ok p ∧
      ∃ report, World.alone i pid (replay deps env config t.header.traceId) x.2 =
        some (.ok report, x.2) ∧ Agrees t report := by
  obtain ⟨t, hgenuine, hread, hk, ⟨source, program, hsource, hcompile, hhash⟩, -⟩ :=
    (executes_integrity h).opened codec hp hname hfile
  have hverify := hgenuine.verifies ed
  obtain ⟨engine, prepared, run, hrun⟩ := hgenuine
  obtain ⟨report, hrerun, hagrees⟩ := hrun.rerun vm tapes rfl hhash t.header.traceId
  refine ⟨t, hread, hk, report, ?_, hagrees⟩
  exact alone_replay hkey ⟨bytes, ⟨p, hk, hfile⟩, hread⟩ hverify hsource hcompile hrerun

/-! ### At the instance -/

namespace Reference

def decode (text : String) : Table := (Table.ofBytes text.toUTF8).getD (.fields [])

theorem decode_text (t : Table) : decode t.text = t := by
  rw [decode, Table.ofBytes_text]
  rfl

theorem asking_alike : VmRun.Alike reference decode asking asking := by
  refine .call "s.t" _ _ rfl ?_
  rintro answer answer' (e | ⟨t, text, htext⟩)
  · exact .done (.error 2 2 (.refl _))
  · have hsame : decode text = t := by
      cases htext
      exact decode_text t
    rw [hsame]
    exact .done (.ok 2 2 rfl)

theorem asking_records : VmRun.EachCall (RecordsCall reference) asking := by
  refine ⟨⟨fun _ _ => rfl, fun _ _ => rfl, fun _ _ => ⟨rfl, rfl⟩, ?_⟩, ?_⟩
  · intro t text blob htext
    cases htext
    exact ⟨rfl, rfl⟩
  · rintro (e | t)
    · trivial
    · trivial

theorem coreVm : CoreVm reference decode where
  determined program program' config h := by
    cases program with
    | idle => cases program' with
      | idle => exact .done (.ok 1 1 rfl)
      | ask => exact absurd h (by decide)
    | ask => cases program' with
      | idle => exact absurd h (by decide)
      | ask => exact asking_alike
  records program config := by
    cases program with
    | idle => trivial
    | ask => exact asking_records

/-- The records that are left, with no divergence so far. -/
def tapeAt (tape : Tape) (records : List ToolCallRecord) : Prop :=
  tape.left = records ∧ tape.divergence = none

theorem call_recorded (r : ToolCallRecord) (rest : List ToolCallRecord)
    (attestation : Option ByteArray) {args : Table} (hargs : r.argsCanonical = args.text.toUTF8) :
    Tape.call ⟨r :: rest, attestation, none⟩ r.toolName args =
      (answerOf r, ⟨rest, some r.attestation, none⟩) := by
  simp only [Tape.call, hargs, and_self, if_true]

theorem answerOf_error {r : ToolCallRecord} (h : r.status = .error) :
    answerOf r = .error r.errorMessage := by
  rw [answerOf, h]

theorem answerOf_ok {r : ToolCallRecord} {t : Table} (h : r.status = .ok)
    (hresponse : r.responseCanonical = t.text.toUTF8) : answerOf r = .ok (decode t.text) := by
  have hread : Table.ofBytes r.responseCanonical = some t := by
    rw [hresponse]
    exact Table.ofBytes_text t
  rw [answerOf, h, hread, decode_text]

theorem strictTape : StrictTape reference decode tapeAt where
  start records := ⟨rfl, rfl⟩
  error := by
    rintro ⟨left, attestation, divergence⟩ r rest args ⟨rfl, rfl⟩ hargs hstatus
    have hcall := call_recorded r rest attestation hargs
    rw [answerOf_error hstatus] at hcall
    exact ⟨_, hcall, rfl, rfl⟩
  ok := by
    rintro ⟨left, attestation, divergence⟩ r rest args t text ⟨rfl, rfl⟩ hargs hstatus htext hresponse
    have hcall := call_recorded r rest attestation hargs
    cases htext
    rw [answerOf_ok hstatus hresponse] at hcall
    exact ⟨_, hcall, rfl, rfl⟩
  take _ _ h := h
  divergence _ _ h := h.2
  remaining tape records h := congrArg List.length h.1

/-- The environment with the key. -/
def env (_ : String) : Option String := some (Hex.encode key.val)

theorem replay_key : replayKey env config = .ok key := by
  have hdecode : Hex.decodeToSlice 32 (Hex.encode key.val) = some key := Hex.decodeToSlice_encode key
  simp [replayKey, Secret.resolve, env, signingKeyFromHex, hdecode]

end Reference

open Reference in
theorem record_then_replay_reference :
    ∃ x, Steps (executes reference key config.store.dir) (Pool.empty, World.empty) x ∧
      ∃ report, World.alone 0 1 (replay reference env config "0a") x.2 = some (.ok report, x.2) ∧
        Agrees ((engine.traceOf reference askPrepared askRun).sign reference key) report := by
  obtain ⟨x, hx, hfiled⟩ := ask_executes
  obtain ⟨p, hp, hfile⟩ := hfiled.trace
  obtain ⟨t, hread, -, report, hreplay, hagrees⟩ := record_then_replay codec ed25519 coreVm
    strictTape replay_key hx (parent_of_keyPath hp) (not_isTmp_of_keyPath hp) hfile 0 1
  rw [Trace.fromSlice_toVec codec] at hread
  cases hread
  exact ⟨x, hx, report, hreplay, hagrees⟩

end ProvenoGateway
