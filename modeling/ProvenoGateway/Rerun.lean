/-
ProvenoGateway/Rerun.lean

What a replay report says, for any trace.

`Follows` is the run that a recording stands for: the program is answered from
the records, one after the other, and each call has to be the recorded one.
Replay gets at it by way of the strict tape, which goes on after a divergence;
whether the run was followed to the end, with nothing left over, is read off
the tape afterwards (`tape_follows`).  So a replay matches exactly if the
stored program reproduces the trace (`replay_exact`), and no replay changes
the store.
-/
import ProvenoGateway.Tampering

namespace ProvenoGateway

open Program

/-! ### The tape -/

/-- The strict tape, as documented.  `At tape records` says that these records
are still to be answered and nothing has diverged, `Off tape` that something
has; `answerOf` is the answer a record stands for. -/
structure ExactTape (deps : Deps) (At : deps.Tape → List ToolCallRecord → Prop)
    (Off : deps.Tape → Prop) (answerOf : ToolCallRecord → Except String deps.Table) : Prop where
  start : ∀ records, At (deps.tapeStrict records) records
  answers : ∀ tape r rest args, At tape (r :: rest) → r.argsCanonical = deps.argsCanonical args →
    ∃ after, deps.tapeCall tape r.toolName args = (answerOf r, after) ∧ At after rest
  other : ∀ tape r rest name args, At tape (r :: rest) →
    ¬ (r.toolName = name ∧ r.argsCanonical = deps.argsCanonical args) →
    Off (deps.tapeCall tape name args).2
  exhausted : ∀ tape name args, At tape [] → Off (deps.tapeCall tape name args).2
  stays : ∀ tape name args, Off tape → Off (deps.tapeCall tape name args).2
  take : ∀ tape records, At tape records → At (deps.tapeTakeAttestation tape).2 records
  take_off : ∀ tape, Off tape → Off (deps.tapeTakeAttestation tape).2
  divergence : ∀ tape records, At tape records → deps.tapeDivergence tape = none
  divergence_off : ∀ tape, Off tape → deps.tapeDivergence tape ≠ none
  remaining : ∀ tape records, At tape records → deps.tapeRemaining tape = records.length

/-- Answered from the records, the run makes exactly the recorded calls and
ends with `e`. -/
inductive Follows (deps : Deps) (answerOf : ToolCallRecord → Except String deps.Table) :
    VmRun deps.Value deps.Table → List ToolCallRecord → VmEnd deps.Value → Prop
  | done (e : VmEnd deps.Value) : Follows deps answerOf (.done e) [] e
  | call {r : ToolCallRecord} {rest : List ToolCallRecord} {name : String} {args : deps.Table}
      {record : Except String deps.Table → ByteArray → ToolCallRecord}
      {next : Except String deps.Table → VmRun deps.Value deps.Table} {e : VmEnd deps.Value} :
      r.toolName = name → r.argsCanonical = deps.argsCanonical args →
      Follows deps answerOf (next (answerOf r)) rest e →
      Follows deps answerOf (.call name args record next) (r :: rest) e

section Tape

variable {deps : Deps} {At : deps.Tape → List ToolCallRecord → Prop} {Off : deps.Tape → Prop}
  {answerOf : ToolCallRecord → Except String deps.Table}

/-- After a call, the run goes on with the tape that was left, or with that
tape relieved of its attestation. -/
theorem drive_tapeCall {tape after : deps.Tape} {name : String} {args : deps.Table}
    {answer : Except String deps.Table} (h : deps.tapeCall tape name args = (answer, after))
    (record : Except String deps.Table → ByteArray → ToolCallRecord)
    (next : Except String deps.Table → VmRun deps.Value deps.Table)
    (transcript : List ToolCallRecord) : ∃ resumed transcript',
      (resumed = after ∨ resumed = (deps.tapeTakeAttestation after).2) ∧
      drive deps (tapeInterface deps) (.call name args record next) tape transcript =
        drive deps (tapeInterface deps) (next answer) resumed transcript' := by
  have hcall : (tapeInterface deps).callTool tape name args = ret (answer, after) :=
    congrArg ret h
  rw [drive_call, hcall, ret_bind]
  cases answer with
  | error e => exact ⟨after, _, Or.inl rfl, rfl⟩
  | ok t => exact ⟨(deps.tapeTakeAttestation after).2, _, Or.inr rfl, rfl⟩

/-- After a divergence the tape stays off, however the run goes on. -/
theorem ExactTape.off (tapes : ExactTape deps At Off answerOf)
    (run : VmRun deps.Value deps.Table) {tape : deps.Tape} (h : Off tape)
    (transcript : List ToolCallRecord) :
    ∃ e last transcript', drive deps (tapeInterface deps) run tape transcript =
      ret (e, last, transcript') ∧ Off last := by
  induction run generalizing tape transcript with
  | done e => exact ⟨e, tape, transcript, rfl, h⟩
  | call name args record next ih =>
    have hafter := tapes.stays tape name args h
    obtain ⟨resumed, transcript', hresumed, hdrive⟩ := drive_tapeCall rfl record next transcript
    rw [hdrive]
    apply ih
    rcases hresumed with rfl | rfl
    · exact hafter
    · exact tapes.take_off _ hafter

/-- **The tape follows the run**, or tells that it did not: something has
diverged, or records are left.  By induction on the run. -/
theorem ExactTape.follows (tapes : ExactTape deps At Off answerOf)
    (run : VmRun deps.Value deps.Table) {tape : deps.Tape} {records : List ToolCallRecord}
    (h : At tape records) (transcript : List ToolCallRecord) :
    ∃ e last transcript', drive deps (tapeInterface deps) run tape transcript =
        ret (e, last, transcript') ∧
      ((Follows deps answerOf run records e ∧ At last []) ∨
        (∀ e', ¬ Follows deps answerOf run records e') ∧
          (Off last ∨ ∃ r rest, At last (r :: rest))) := by
  induction run generalizing tape records transcript with
  | done e =>
    refine ⟨e, tape, transcript, rfl, ?_⟩
    cases records with
    | nil => exact Or.inl ⟨.done e, h⟩
    | cons r rest => exact Or.inr ⟨fun _ hfollows => (nomatch hfollows), Or.inr ⟨r, rest, h⟩⟩
  | call name args record next ih =>
    -- a call that is not the recorded one
    have hoff : Off (deps.tapeCall tape name args).2 →
        (∀ e', ¬ Follows deps answerOf (.call name args record next) records e') →
        ∃ e last transcript', drive deps (tapeInterface deps) (.call name args record next) tape
            transcript = ret (e, last, transcript') ∧
          ((Follows deps answerOf (.call name args record next) records e ∧ At last []) ∨
            (∀ e', ¬ Follows deps answerOf (.call name args record next) records e') ∧
              (Off last ∨ ∃ r rest, At last (r :: rest))) := by
      intro hafter hnot
      obtain ⟨resumed, transcript', hresumed, hdrive⟩ := drive_tapeCall rfl record next transcript
      have hresumed : Off resumed := by
        rcases hresumed with rfl | rfl
        · exact hafter
        · exact tapes.take_off _ hafter
      obtain ⟨e, last, transcript'', hrest, hlast⟩ := tapes.off (next _) hresumed transcript'
      exact ⟨e, last, transcript'', hdrive.trans hrest, Or.inr ⟨hnot, Or.inl hlast⟩⟩
    cases records with
    | nil =>
      apply hoff
      · exact tapes.exhausted tape name args h
      · exact fun _ hfollows => nomatch hfollows
    | cons r rest =>
      by_cases hsame : r.toolName = name ∧ r.argsCanonical = deps.argsCanonical args
      · obtain ⟨rfl, hargs⟩ := hsame
        obtain ⟨after, hcall, hafter⟩ := tapes.answers tape r rest args h hargs
        obtain ⟨resumed, transcript', hresumed, hdrive⟩ := drive_tapeCall hcall record next transcript
        have hresumed : At resumed rest := by
          rcases hresumed with rfl | rfl
          · exact hafter
          · exact tapes.take _ _ hafter
        obtain ⟨e, last, transcript'', hrest, hends⟩ := ih (answerOf r) hresumed transcript'
        refine ⟨e, last, transcript'', hdrive.trans hrest, ?_⟩
        rcases hends with ⟨hfollows, hlast⟩ | ⟨hnot, hlast⟩
        · exact Or.inl ⟨.call rfl hargs hfollows, hlast⟩
        · refine Or.inr ⟨fun e' hfollows => ?_, hlast⟩
          cases hfollows with
          | call _ _ htail => exact hnot e' htail
      · apply hoff
        · exact tapes.other tape r rest name args h hsame
        · intro e' hfollows
          cases hfollows with
          | call hname hargs _ => exact hsame ⟨hname, hargs⟩

/-- A followed run has one end. -/
theorem Follows.unique {run : VmRun deps.Value deps.Table} {records : List ToolCallRecord}
    {e e' : VmEnd deps.Value} (h : Follows deps answerOf run records e)
    (h' : Follows deps answerOf run records e') : e' = e := by
  induction h with
  | done e =>
    cases h'
    rfl
  | call _ _ _ ih =>
    cases h' with
    | call _ _ htail => exact ih htail

end Tape

/-! ### The report -/

section Report

variable {deps : Deps} {At : deps.Tape → List ToolCallRecord → Prop} {Off : deps.Tape → Prop}
  {answerOf : ToolCallRecord → Except String deps.Table}

/-- No departure is found exactly if there is none. -/
theorem mismatches_eq_nil {t : Trace} {programHash : String} {tape : deps.Tape} {out : Outcome} :
    mismatches deps t programHash tape out = [] ↔ programHash = t.header.programHash ∧
      deps.tapeDivergence tape = none ∧ deps.tapeRemaining tape = 0 ∧
      t.footer.outcome.Alike out := by
  have hguard : ∀ (p : Prop) [Decidable p] (text : String),
      (if p then [text] else []) = [] ↔ ¬ p := by
    intro p _ text
    by_cases hp : p <;> simp [hp]
  unfold mismatches
  dsimp only
  simp only [List.append_eq_nil_iff, hguard, not_not, and_assoc]
  refine and_congr_right fun _ => and_congr ?_ (and_congr ?_ ?_)
  · cases deps.tapeDivergence tape with
    | none => simp
    | some d => simp
  · exact Nat.pos_iff_ne_zero.not_left
  · constructor
    · rintro ⟨houtput, hstatus, hgas, hmemory⟩
      exact ⟨houtput.symm, hstatus.symm, hgas.symm, hmemory.symm⟩
    · rintro ⟨houtput, hstatus, hgas, hmemory⟩
      exact ⟨houtput.symm, hstatus.symm, hgas.symm, hmemory.symm⟩

/-- The program has the hash of the header; answered from the records it makes
exactly the recorded calls, in their order; and it ends as the footer says. -/
structure Reproduces (deps : Deps) (answerOf : ToolCallRecord → Except String deps.Table)
    (t : Trace) (program : deps.CompiledProgram) (e : VmEnd deps.Value) : Prop where
  hash : Hex.encode (deps.programHash program).val = t.header.programHash
  calls : Follows deps answerOf (deps.execute program (VmConfig.ofSettings t.header.vmConfig))
    (t.entries.map TraceEntry.record) e
  outcome : t.footer.outcome.Alike (outcome deps e t.header.vmConfig.maxOutputBytes 0)

/-- What the report says of the run. -/
def ReplayReport.outcome (report : ReplayReport) : Outcome :=
  ⟨report.output, report.status, report.gasUsed, report.memoryUsed⟩

theorem rerun_exact (tapes : ExactTape deps At Off answerOf) (traceId : String) (t : Trace)
    (program : deps.CompiledProgram) : ∃ report, rerun deps traceId t program = ret report ∧
      report.traceId = traceId ∧
      (report.matched = true ↔ ∃ e, Reproduces deps answerOf t program e) ∧
      ∀ e, Follows deps answerOf (deps.execute program (VmConfig.ofSettings t.header.vmConfig))
        (t.entries.map TraceEntry.record) e →
        report.outcome = outcome deps e t.header.vmConfig.maxOutputBytes 0 := by
  obtain ⟨e, last, transcript, hdrive, hends⟩ :=
    tapes.follows (deps.execute program (VmConfig.ofSettings t.header.vmConfig))
      (tapes.start (t.entries.map TraceEntry.record)) []
  let found := mismatches deps t (Hex.encode (deps.programHash program).val) last
    (outcome deps e t.header.vmConfig.maxOutputBytes 0)
  have hrerun : rerun deps traceId t program = ret
      (let out := outcome deps e t.header.vmConfig.maxOutputBytes 0
       ⟨traceId, found.isEmpty, found, out.output, out.status, out.gasUsed, out.memoryUsed⟩) := by
    unfold rerun
    dsimp only
    rw [hdrive]
    rfl
  refine ⟨_, hrerun, rfl, ?_, ?_⟩
  · show found.isEmpty = true ↔ _
    rw [List.isEmpty_iff, mismatches_eq_nil]
    rcases hends with ⟨hfollows, hlast⟩ | ⟨hnot, hlast⟩
    · constructor
      · rintro ⟨hhash, -, -, hout⟩
        exact ⟨e, hhash, hfollows, hout⟩
      · rintro ⟨e', hhash, hfollows', hout⟩
        obtain rfl := hfollows.unique hfollows'
        exact ⟨hhash, tapes.divergence _ _ hlast, tapes.remaining _ _ hlast, hout⟩
    · constructor
      · rintro ⟨-, hdivergence, hremaining, -⟩
        rcases hlast with hoff | ⟨r, rest, hlast⟩
        · exact absurd hdivergence (tapes.divergence_off _ hoff)
        · rw [tapes.remaining _ _ hlast] at hremaining
          cases hremaining
      · rintro ⟨e', -, hfollows, -⟩
        exact absurd hfollows (hnot e')
  · intro e' hfollows'
    rcases hends with ⟨hfollows, -⟩ | ⟨hnot, -⟩
    · rw [hfollows.unique hfollows']
      rfl
    · exact absurd hfollows' (hnot e')

end Report

/-! ### Offline -/

section Offline

variable {deps : Deps}

/-- Making a directory that may be there, and reading a file. -/
def Offline : Op → Prop
  | .createDirAll _ | .read _ => True
  | _ => False

theorem offline_op (o : Op) (ho : Offline o) : (Program.op o : Gateway (Res o)).Uses Offline :=
  ⟨ho, fun _ => trivial⟩

theorem openDir_offline (dir : String) : (TraceStore.openDir dir).Uses Offline := by
  refine Uses.bind (offline_op (.createDirAll _) trivial) ?_
  rintro (e | u)
  · trivial
  · refine Uses.bind (offline_op (.createDirAll _) trivial) ?_
    rintro (e | u)
    · trivial
    · refine Uses.bind (offline_op (.createDirAll _) trivial) ?_
      rintro (e | u) <;> trivial

theorem replayWith_offline (key : SigningKey) (store : TraceStore) (traceId : String) :
    (replayWith deps key store traceId).Uses Offline := by
  have hget : (store.getTrace deps traceId).Uses Offline := by
    unfold TraceStore.getTrace
    split
    · trivial
    · refine Uses.bind (offline_op (.read _) trivial) ?_
      rintro (e | bytes)
      · trivial
      · dsimp only
        split <;> trivial
  have hprogram : ∀ programHash, (store.getProgram programHash).Uses Offline := by
    intro programHash
    unfold TraceStore.getProgram
    split
    · trivial
    · refine Uses.bind (offline_op (.read _) trivial) ?_
      rintro (e | bytes)
      · trivial
      · dsimp only
        split <;> trivial
  refine Uses.bind hget ?_
  rintro (e | t)
  · trivial
  dsimp only
  split
  · trivial
  refine Uses.bind (hprogram _) ?_
  rintro (e | source)
  · trivial
  dsimp only
  split
  · trivial
  · -- the tape asks nobody
    have htape : ∀ tape name args, ((tapeInterface deps).callTool tape name args).Uses Offline :=
      fun _ _ _ => trivial
    exact Uses.bind (Uses.bind (drive_uses htape _ _ _) fun _ => trivial) fun _ => trivial

theorem replay_offline (env : String → Option String) (config : GatewayConfig)
    (traceId : String) : (replay deps env config traceId).Uses Offline := by
  unfold replay
  split
  · trivial
  · refine Uses.bind (openDir_offline _) ?_
    rintro (e | store)
    · trivial
    · exact replayWith_offline _ store traceId

theorem exec_offline {faults : Prop} {i pid : Nat} {α : Type} {p : Gateway α} (hp : p.Uses Offline)
    {w w' : World} {a : α} (h : Exec (World.sem faults i pid) p w a w') : w' = w := by
  induction h with
  | ret a w => rfl
  | @call o next w w₁ w₂ r a hstep _ ih =>
    have hquiet : World.Quiet o := by
      have ho := hp.1
      cases o <;> trivial
    rw [ih (hp.2 r)]
    exact World.sem_quiet hquiet hstep

end Offline

/-! ### Exact replay -/

/-- **A replay is offline and exact.**  Whatever the files hold and whatever
faults strike, a replay makes nothing but directories and reads, and leaves
the store as it is.  Where it reports on a trace, the trace stored under the
id verifies under the key and its program compiles; it matches exactly if that
program reproduces the trace; and if the recorded calls are followed to their
end, what it reports is the outcome of that run. -/
theorem replay_exact {deps : Deps} {At : deps.Tape → List ToolCallRecord → Prop}
    {Off : deps.Tape → Prop} {answerOf : ToolCallRecord → Except String deps.Table}
    (tapes : ExactTape deps At Off answerOf) {env : String → Option String}
    {config : GatewayConfig} {traceId : String} {faults : Prop} {i pid : Nat} {w w' : World}
    {result : Except ReplayError ReplayReport}
    (h : Exec (World.sem faults i pid) (replay deps env config traceId) w result w') :
    (replay deps env config traceId).Uses Offline ∧ w' = w ∧
    ∀ report, result = .ok report → ∃ key t program, replayKey env config = .ok key ∧
      Loaded deps key (.under config.store.dir) traceId w t program ∧ report.traceId = traceId ∧
      (report.matched = true ↔ ∃ e, Reproduces deps answerOf t program e) ∧
      ∀ e, Follows deps answerOf (deps.execute program (VmConfig.ofSettings t.header.vmConfig))
        (t.entries.map TraceEntry.record) e →
        report.outcome = outcome deps e t.header.vmConfig.maxOutputBytes 0 := by
  have hoffline : (replay deps env config traceId).Uses Offline := replay_offline env config traceId
  refine ⟨hoffline, exec_offline hoffline h, ?_⟩
  rintro report rfl
  rcases hkey : replayKey env config with e | key
  · unfold replay at h
    rw [hkey] at h
    cases h
  · obtain ⟨t, program, hloaded, hrerun⟩ := exec_replay hkey h
    obtain ⟨report', hret, hexact⟩ := rerun_exact tapes traceId t program
    rw [hret] at hrerun
    cases hrerun
    exact ⟨key, t, program, rfl, hloaded, hexact⟩

/-! ### A store in order -/

/-- In a store in order, a stored trace is read back, verifies, and its replay
agrees. -/
theorem Integrity.replays {deps : Deps} {key : SigningKey} {decode : String → deps.Table}
    {At : deps.Tape → List ToolCallRecord → Prop} {env : String → Option String}
    {config : GatewayConfig} {w : World}
    (hinv : Integrity deps key (.under config.store.dir) w.visible) (codec : RecordCodec deps)
    (ed : Ed25519 deps) (vm : CoreVm deps decode) (tapes : StrictTape deps decode At)
    (hkey : replayKey env config = .ok key) {t : Trace} {traceId : String}
    (hfiled : Holds w (TraceStore.under config.store.dir).traces traceId "json" (t.toVec deps))
    (i pid : Nat) :
    t.verify deps (deps.verifyingKey key) = .ok () ∧
      World.alone i pid ((TraceStore.under config.store.dir).getTrace deps traceId) w =
        some (.ok t, w) ∧
      ∃ report, World.alone i pid (replay deps env config traceId) w = some (.ok report, w) ∧
        Agrees t report := by
  obtain ⟨p, hp, hfile⟩ := hfiled
  obtain ⟨t', hgenuine, hread, -, ⟨source, program, hsource, hcompile, hhash⟩, -⟩ :=
    hinv.opened codec (parent_of_keyPath hp) (not_isTmp_of_keyPath hp) hfile
  obtain rfl : t = t' := by
    rw [Trace.fromSlice_toVec codec] at hread
    exact Option.some.inj hread
  have hverify := hgenuine.verifies ed
  obtain ⟨engine, prepared, run, hrun⟩ := hgenuine
  obtain ⟨report, hrerun, hagrees⟩ := hrun.rerun vm tapes rfl hhash traceId
  refine ⟨hverify, ?_, report, ?_, hagrees⟩
  · simp [TraceStore.getTrace, hp, World.alone, World.step, hfile, hread]
  · exact alone_replay hkey ⟨_, ⟨p, hp, hfile⟩, hread⟩ hverify hsource hcompile hrerun

/-! ### At the instance -/

namespace Reference

theorem exactTape : ExactTape reference tapeAt (fun tape => tape.divergence ≠ none) answerOf where
  start records := ⟨rfl, rfl⟩
  answers := by
    rintro ⟨left, attestation, divergence⟩ r rest args ⟨rfl, rfl⟩ hargs
    exact ⟨_, call_recorded r rest attestation hargs, rfl, rfl⟩
  other := by
    rintro ⟨left, attestation, divergence⟩ r rest name (args : Table) ⟨rfl, rfl⟩ hother
    have hne : ¬ (r.toolName = name ∧ r.argsCanonical = args.text.toUTF8) := hother
    show (Tape.call _ name args).2.divergence ≠ none
    simp only [Tape.call, if_neg hne]
    exact Option.some_ne_none _
  exhausted := by
    rintro ⟨left, attestation, divergence⟩ name args ⟨rfl, rfl⟩
    exact Option.some_ne_none _
  stays := by
    rintro ⟨left, attestation, divergence⟩ name args hoff
    show (Tape.call _ name args).2.divergence ≠ none
    unfold Tape.call
    dsimp only
    split
    · split
      · exact hoff
      · exact Option.some_ne_none _
    · exact Option.some_ne_none _
  take _ _ h := h
  take_off _ h := h
  divergence _ _ h := h.2
  divergence_off _ h := h
  remaining _ _ h := congrArg List.length h.1

/-- The replay of `ask`. -/
theorem ask_replayed : ∃ w report, World.alone 0 1 (replay reference env config "0a") w =
    some (.ok report, w) ∧ report.matched = true := by
  obtain ⟨x, hx, hfiled⟩ := ask_executes
  obtain ⟨-, -, report, hreplay, hagrees⟩ := (executes_integrity hx).replays codec ed25519 coreVm
    strictTape replay_key hfiled.trace 0 1
  exact ⟨x.2, report, hreplay, hagrees.matched⟩

end Reference

open Reference in
/-- The stored trace of `ask` is reproduced: its replay matches. -/
theorem replay_exact_reference : ∃ w report t program e,
    Exec (World.sem True 0 1) (replay reference env config "0a") w (.ok report) w ∧
      Loaded reference key (.under config.store.dir) "0a" w t program ∧
      Reproduces reference answerOf t program e := by
  obtain ⟨w, report, hreplay, hreported⟩ := ask_replayed
  have hexec : Exec (World.sem True 0 1) (replay reference env config "0a") w (.ok report) w :=
    exec_of_alone hreplay
  obtain ⟨-, -, hreport⟩ := replay_exact exactTape hexec
  obtain ⟨k, t, program, hkey, hloaded, -, hmatched, -⟩ := hreport report rfl
  rw [replay_key, Except.ok.injEq] at hkey
  obtain ⟨e, hreproduces⟩ := hmatched.mp hreported
  exact ⟨w, report, t, program, e, hexec, hkey ▸ hloaded, hreproduces⟩

end ProvenoGateway
