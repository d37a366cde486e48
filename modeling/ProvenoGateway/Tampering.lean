/-
ProvenoGateway/Tampering.lean

What a replay vouches for, when somebody without the key has been at the
files.

The signature protects what a trace says and not the name of its file, and
the replay does not compare the two.  So a trace copied to the name of another
one replays under that other id (`replay_vouches_iff`): the replay vouches for
the run it was asked about exactly if the file is not such a copy, or cannot be
replayed anyway because its program is gone or has been changed.
-/
import ProvenoGateway.RecordReplay

namespace ProvenoGateway

open Program Interleave

/-! ### What can become of the store -/

section Tampering

variable (deps : Deps) (key : SigningKey)

/-- An engine signed this: the digest is that of a genuine trace, and the two
texts do not collide. -/
def Signed (t : Trace) : Prop :=
  ∃ t₀, Genuine deps key t₀ ∧ t.unsigned.digest deps = t₀.unsigned.digest deps ∧
    Trace.NoCollision deps t t₀

/-- What executes and somebody without the key can make of a store: trace files
are copied anywhere, files are removed and overwritten.  What is written has
no signature that an engine has not made. -/
inductive Tampered (dir : String) : World → Prop
  | executed {x : Pool Op Res Nat (Except ExecuteError ExecuteResponse) × World} :
      Steps (executes deps key dir) (Pool.empty, World.empty) x → Tampered dir x.2
  | copied {w : World} {traceId : String} {bytes : ByteArray} (target : Path) : Tampered dir w →
      Holds w (TraceStore.under dir).traces traceId "json" bytes →
      Tampered dir (w.set target (some bytes))
  | removed {w : World} (target : Path) : Tampered dir w → Tampered dir (w.set target none)
  | edited {w : World} {bytes : ByteArray} (target : Path) : Tampered dir w →
      (∀ t, Trace.fromSlice deps bytes = some t →
        t.verify deps (deps.verifyingKey key) = .ok () → Signed deps key t) →
      Tampered dir (w.set target (some bytes))

/-- Whatever trace verifies was signed by an engine. -/
def TracesSigned (dir : String) (w : World) : Prop :=
  ∀ traceId bytes t, Holds w (TraceStore.under dir).traces traceId "json" bytes →
    Trace.fromSlice deps bytes = some t → t.verify deps (deps.verifyingKey key) = .ok () →
    Signed deps key t

variable {deps key} {dir : String} {w : World}

theorem Genuine.signed {t : Trace} (h : Genuine deps key t) : Signed deps key t :=
  ⟨t, h, rfl, fun a ha b hb _ => by
    rw [Set.pair_eq_singleton, Set.mem_singleton_iff] at ha hb
    rw [ha, hb]⟩

/-- Nobody signs but an engine, and texts that do not collide are the same. -/
theorem Signed.unsigned (codec : RecordCodec deps) {t : Trace} (h : Signed deps key t) :
    ∃ t₀, Genuine deps key t₀ ∧ t.unsigned = t₀.unsigned := by
  obtain ⟨t₀, hgenuine, hdigest, hcoll⟩ := h
  have hbytes := hcoll (by simp) (by simp) hdigest
  exact ⟨t₀, hgenuine, Trace.toVec_injective codec hbytes⟩

theorem TracesSigned.set {target : Path} {content : Option ByteArray}
    (h : TracesSigned deps key dir w)
    (hcontent : ∀ bytes t, content = some bytes → Trace.fromSlice deps bytes = some t →
      t.verify deps (deps.verifyingKey key) = .ok () → Signed deps key t) :
    TracesSigned deps key dir (w.set target content) := by
  rintro traceId bytes t ⟨p, hp, hfile⟩ hread hverify
  by_cases hpt : p = target
  · subst hpt
    rw [World.set_files_self] at hfile
    exact hcontent bytes t hfile hread hverify
  · rw [World.set_files_ne _ _ hpt] at hfile
    exact h traceId bytes t ⟨p, hp, hfile⟩ hread hverify

/-- Induction over what was done to the store. -/
theorem Tampered.tracesSigned (codec : RecordCodec deps) (h : Tampered deps key dir w) :
    TracesSigned deps key dir w := by
  induction h with
  | executed hx =>
    rintro traceId bytes t ⟨p, hp, hfile⟩ hread -
    obtain ⟨t', hgenuine, hread', -⟩ := (executes_integrity hx).opened codec
      (parent_of_keyPath hp) (not_isTmp_of_keyPath hp) hfile
    rw [hread] at hread'
    cases hread'
    exact hgenuine.signed
  | copied target _ hfile ih =>
    apply ih.set
    rintro bytes t hbytes hread hverify
    cases hbytes
    exact ih _ _ t hfile hread hverify
  | removed target _ ih =>
    apply ih.set
    rintro bytes t hbytes
    cases hbytes
  | edited target _ hforge ih =>
    apply ih.set
    rintro bytes t hbytes
    cases hbytes
    exact hforge t

/-! ### What a replay has read -/

variable {i pid : Nat} {faults : Prop} {w' : World}

theorem exec_quiet {α : Type} {o : Op} {next : Res o → Gateway α} {a : α}
    (h : Exec (World.sem faults i pid) (.call o next) w a w') (ho : World.Quiet o) :
    ∃ r, Exec (World.sem faults i pid) (next r) w a w' := by
  obtain ⟨r, w₁, hstep, hnext⟩ := exec_call_iff.mp h
  have hsame : w₁ = w := World.sem_quiet ho hstep
  rw [hsame] at hnext
  exact ⟨r, hnext⟩

theorem exec_openDir {store : TraceStore}
    (h : Exec (World.sem faults i pid) (TraceStore.openDir dir) w (.ok store) w') :
    store = .under dir ∧ w' = w := by
  obtain ⟨r₁, h⟩ := exec_quiet h trivial
  cases r₁ with
  | error e => cases h
  | ok u₁ =>
    obtain ⟨r₂, h⟩ := exec_quiet h trivial
    cases r₂ with
    | error e => cases h
    | ok u₂ =>
      obtain ⟨r₃, h⟩ := exec_quiet h trivial
      cases r₃ with
      | error e => cases h
      | ok u₃ =>
        cases h
        exact ⟨rfl, rfl⟩

theorem exec_read {p : Path} {r : Except IoError ByteArray}
    (h : World.sem faults i pid (.read p) w r w') :
    w' = w ∧ ∀ bytes, r = .ok bytes → w.files p = some bytes := by
  refine ⟨World.sem_quiet (o := .read p) trivial h, ?_⟩
  rintro bytes rfl
  rcases World.sem_read h with ⟨content, hfile, hr⟩ | ⟨-, hr⟩ | ⟨-, e, -, hr⟩
  · cases hr
    exact hfile
  · cases hr
  · cases hr

theorem exec_getTrace {store : TraceStore} {traceId : String} {t : Trace}
    (h : Exec (World.sem faults i pid) (store.getTrace deps traceId) w (.ok t) w') :
    w' = w ∧ ∃ bytes, Holds w store.traces traceId "json" bytes ∧
      Trace.fromSlice deps bytes = some t := by
  unfold TraceStore.getTrace at h
  cases hp : keyPath store.traces traceId "json" with
  | error e =>
    rw [hp] at h
    cases h
  | ok p =>
    simp only [hp, op_bind, exec_call_iff] at h
    obtain ⟨r, w₁, hstep, h⟩ := h
    obtain ⟨rfl, hread⟩ := exec_read hstep
    cases r with
    | error e => cases h
    | ok bytes =>
      dsimp only at h
      cases ht : Trace.fromSlice deps bytes with
      | none =>
        rw [ht] at h
        cases h
      | some t' =>
        rw [ht] at h
        cases h
        exact ⟨rfl, bytes, ⟨p, hp, hread bytes rfl⟩, ht⟩

theorem exec_getProgram {store : TraceStore} {programHash source : String}
    (h : Exec (World.sem faults i pid) (store.getProgram programHash) w (.ok source) w') :
    w' = w ∧ Holds w store.programs programHash "lua" source.toUTF8 := by
  unfold TraceStore.getProgram at h
  cases hp : keyPath store.programs programHash "lua" with
  | error e =>
    rw [hp] at h
    cases h
  | ok p =>
    simp only [hp, readToString, op_bind, exec_call_iff] at h
    obtain ⟨r, w₁, hstep, h⟩ := h
    obtain ⟨rfl, hread⟩ := exec_read hstep
    cases r with
    | error e => cases h
    | ok bytes =>
      dsimp only at h
      cases hs : String.fromUTF8? bytes with
      | none =>
        rw [hs] at h
        cases h
      | some text =>
        rw [hs] at h
        cases h
        refine ⟨rfl, p, hp, ?_⟩
        rw [Json.toUTF8_fromUTF8 hs]
        exact hread bytes rfl

/-- The files behind a report: the trace that was asked for and its program. -/
structure Loaded (deps : Deps) (key : SigningKey) (store : TraceStore) (traceId : String)
    (w : World) (t : Trace) (program : deps.CompiledProgram) : Prop where
  trace : ∃ bytes, Holds w store.traces traceId "json" bytes ∧ Trace.fromSlice deps bytes = some t
  verified : t.verify deps (deps.verifyingKey key) = .ok ()
  program : ∃ source, Holds w store.programs t.header.programHash "lua" source.toUTF8 ∧
    compileText deps source = some program

/-- One file has one content. -/
theorem Holds.unique {name ext : String} {bytes bytes' : ByteArray}
    (h : Holds w dir name ext bytes) (h' : Holds w dir name ext bytes') : bytes = bytes' := by
  obtain ⟨p, hp, hfile⟩ := h
  obtain ⟨p', hp', hfile'⟩ := h'
  rw [hp] at hp'
  cases hp'
  rw [hfile] at hfile'
  exact Option.some.inj hfile'

theorem exec_replay {env : String → Option String} {config : GatewayConfig} {traceId : String}
    {report : ReplayReport} (hkey : replayKey env config = .ok key)
    (h : Exec (World.sem faults i pid) (replay deps env config traceId) w (.ok report) w') :
    ∃ t program, Loaded deps key (.under config.store.dir) traceId w t program ∧
      Exec (World.sem faults i pid) (rerun deps traceId t program) w report w' := by
  unfold replay at h
  rw [hkey] at h
  obtain ⟨opened, w₁, hopen, hread⟩ := exec_bind_iff.mp h
  cases opened with
  | error e => cases hread
  | ok store =>
    obtain ⟨rfl, rfl⟩ := exec_openDir hopen
    obtain ⟨got, w₂, hget, hverified⟩ := exec_bind_iff.mp hread
    cases got with
    | error e => cases hverified
    | ok t =>
      obtain ⟨rfl, htrace⟩ := exec_getTrace hget
      dsimp only at hverified
      cases hverify : t.verify deps (deps.verifyingKey key) with
      | error e =>
        rw [hverify] at hverified
        cases hverified
      | ok u =>
        rw [hverify] at hverified
        obtain ⟨found, w₃, hfound, hcompiled⟩ := exec_bind_iff.mp hverified
        cases found with
        | error e => cases hcompiled
        | ok source =>
          obtain ⟨rfl, hsource⟩ := exec_getProgram hfound
          dsimp only at hcompiled
          cases hcompile : recompile deps t.header.programHash source with
          | error e =>
            rw [hcompile] at hcompiled
            cases hcompiled
          | ok program =>
            rw [hcompile] at hcompiled
            obtain ⟨report', w₄, hrerun, hreport⟩ := exec_bind_iff.mp hcompiled
            cases hreport
            exact ⟨t, program, ⟨htrace, hverify, source, hsource, recompile_eq_ok.mp hcompile⟩,
              hrerun⟩

/-- A replay that matches found the program unchanged. -/
theorem exec_rerun {traceId : String} {t : Trace} {program : deps.CompiledProgram}
    {report : ReplayReport}
    (h : Exec (World.sem faults i pid) (rerun deps traceId t program) w report w')
    (hmatched : report.matched = true) :
    Hex.encode (deps.programHash program).val = t.header.programHash := by
  obtain ⟨⟨e, tape, transcript⟩, w₁, -, h⟩ := exec_bind_iff.mp h
  cases h
  have hnil := List.isEmpty_iff.mp hmatched
  by_contra hne
  simp [mismatches, hne] at hnil

/-! ### Vouching -/

/-- The report is that of the run that was reported under `traceId`: the trace
loaded is the one an engine signed for it. -/
structure VouchedFor (deps : Deps) (key : SigningKey) (store : TraceStore) (traceId : String)
    (w : World) (report : ReplayReport) (engine : Engine) (prepared : Engine.Prepared deps)
    (run : Engine.RunResult) : Prop where
  loaded : ∃ bytes t t₀, Holds w store.traces traceId "json" bytes ∧
    Trace.fromSlice deps bytes = some t ∧ SignedRun deps key engine prepared run t₀ ∧
    t.unsigned = t₀.unsigned
  traceId : prepared.traceId = traceId
  output : report.output = run.outcome.output
  status : statusKind report.status = statusKind run.outcome.status
  gasUsed : report.gasUsed = run.outcome.gasUsed
  memoryUsed : report.memoryUsed = run.outcome.memoryUsed

/-- Every replay of `traceId` that matches is about the run of that id. -/
def Vouches (deps : Deps) (env : String → Option String) (key : SigningKey)
    (config : GatewayConfig) (traceId : String) (w : World) : Prop :=
  ∀ i pid report w',
    Exec (World.sem True i pid) (replay deps env config traceId) w (.ok report) w' →
    report.matched = true → ∃ engine prepared run,
      VouchedFor deps key (.under config.store.dir) traceId w report engine prepared run

/-- The file of `traceId` holds the trace of another id, which verifies, and
the program of that trace is as it was. -/
def Misplaced (deps : Deps) (key : SigningKey) (store : TraceStore) (traceId : String)
    (w : World) : Prop :=
  ∃ t program, Loaded deps key store traceId w t program ∧
    Hex.encode (deps.programHash program).val = t.header.programHash ∧ t.header.traceId ≠ traceId

end Tampering

section Vouching

variable {deps : Deps} {key : SigningKey} {decode : String → deps.Table}
  {At : deps.Tape → List ToolCallRecord → Prop} {env : String → Option String}
  {config : GatewayConfig} {w : World} {traceId : String} {t : Trace}
  {program : deps.CompiledProgram}

/-- A trace that verifies, with its program unchanged, replays to what its
footer says, whatever the name of its file. -/
theorem Loaded.replays (codec : RecordCodec deps) (vm : CoreVm deps decode)
    (tapes : StrictTape deps decode At)
    (hsigned : TracesSigned deps key config.store.dir w)
    (h : Loaded deps key (.under config.store.dir) traceId w t program)
    (hhash : Hex.encode (deps.programHash program).val = t.header.programHash) :
    ∃ engine prepared run t₀ report, SignedRun deps key engine prepared run t₀ ∧
      t.unsigned = t₀.unsigned ∧ rerun deps traceId t program = .ret report ∧
      Agrees t report := by
  obtain ⟨bytes, hfile, hread⟩ := h.trace
  obtain ⟨t₀, ⟨engine, prepared, run, hrun⟩, hunsigned⟩ :=
    (hsigned traceId bytes t hfile hread h.verified).unsigned codec
  obtain ⟨report, hrerun, hagrees⟩ := hrun.rerun vm tapes hunsigned hhash traceId
  exact ⟨engine, prepared, run, t₀, report, hrun, hunsigned, hrerun, hagrees⟩

theorem SignedRun.parts {engine : Engine} {prepared : Engine.Prepared deps}
    {run : Engine.RunResult} {t₀ : Trace} (h : SignedRun deps key engine prepared run t₀)
    (hunsigned : t.unsigned = t₀.unsigned) :
    t.header.traceId = prepared.traceId ∧ t.footer.outcome = run.outcome := by
  obtain ⟨hheader, -, hfooter⟩ := Trace.parts_of_unsigned hunsigned
  rw [hheader, hfooter, h.signed]
  exact ⟨rfl, rfl⟩

/-- A misplaced trace matches all the same. -/
theorem Misplaced.matches (codec : RecordCodec deps) (vm : CoreVm deps decode)
    (tapes : StrictTape deps decode At) (hkey : replayKey env config = .ok key)
    (hsigned : TracesSigned deps key config.store.dir w)
    (h : Misplaced deps key (.under config.store.dir) traceId w) (i pid : Nat) :
    ∃ report, World.alone i pid (replay deps env config traceId) w = some (.ok report, w) ∧
      report.matched = true := by
  obtain ⟨t, program, hloaded, hhash, -⟩ := h
  obtain ⟨-, -, -, -, report, -, -, hrerun, hagrees⟩ :=
    hloaded.replays codec vm tapes hsigned hhash
  obtain ⟨source, hsource, hcompile⟩ := hloaded.program
  have halone : World.alone i pid (replay deps env config traceId) w = some (.ok report, w) :=
    alone_replay hkey hloaded.trace hloaded.verified hsource hcompile hrerun
  exact ⟨report, halone, hagrees.matched⟩

/-- What is loaded for a misplaced trace was signed for another run. -/
theorem Misplaced.not_vouchedFor {store : TraceStore}
    (h : Misplaced deps key store traceId w) {report : ReplayReport} {engine : Engine}
    {prepared : Engine.Prepared deps} {run : Engine.RunResult} :
    ¬ VouchedFor deps key store traceId w report engine prepared run := by
  intro hvouched
  obtain ⟨t, program, hloaded, -, hother⟩ := h
  obtain ⟨bytes, t', t₀, hfile', hread', hrun, hunsigned⟩ := hvouched.loaded
  obtain ⟨bytes', hfile, hread⟩ := hloaded.trace
  obtain rfl := hfile.unique hfile'
  rw [hread] at hread'
  cases hread'
  exact hother ((hrun.parts hunsigned).1.trans hvouched.traceId)

/-- Whatever has been done to the files of a store by somebody without the
key: a replay that matches is about the run it was asked about exactly if the
file of that id does not hold the trace of another run, its program being as it
was. -/
theorem replay_vouches_iff (codec : RecordCodec deps) (vm : CoreVm deps decode)
    (tapes : StrictTape deps decode At) (hkey : replayKey env config = .ok key)
    (h : Tampered deps key config.store.dir w) :
    Vouches deps env key config traceId w ↔
      ¬ Misplaced deps key (.under config.store.dir) traceId w := by
  have hsigned := h.tracesSigned codec
  constructor
  · intro hvouches hmisplaced
    obtain ⟨report, halone, hmatched⟩ := hmisplaced.matches codec vm tapes hkey hsigned 0 0
    obtain ⟨engine, prepared, run, hvouched⟩ :=
      hvouches 0 0 report w (exec_of_alone halone) hmatched
    exact hmisplaced.not_vouchedFor hvouched
  · intro hplaced i pid report w' hexec hmatched
    obtain ⟨t, program, hloaded, hrerun⟩ := exec_replay hkey hexec
    have hhash := exec_rerun hrerun hmatched
    have hid : t.header.traceId = traceId := by
      by_contra hother
      exact hplaced ⟨t, program, hloaded, hhash, hother⟩
    obtain ⟨engine, prepared, run, t₀, report', hrun, hunsigned, hret, hagrees⟩ :=
      hloaded.replays codec vm tapes hsigned hhash
    rw [hret] at hrerun
    cases hrerun
    obtain ⟨bytes, hfile, hread⟩ := hloaded.trace
    obtain ⟨hprepared, hfooter⟩ := hrun.parts hunsigned
    refine ⟨engine, prepared, run, ⟨⟨bytes, t, t₀, hfile, hread, hrun, hunsigned⟩,
      hprepared.symm.trans hid, ?_, ?_, ?_, ?_⟩⟩
    · rw [← hfooter]
      exact hagrees.output
    · rw [← hfooter]
      exact hagrees.status
    · rw [← hfooter]
      exact hagrees.gasUsed
    · rw [← hfooter]
      exact hagrees.memoryUsed

end Vouching

/-! ### At the instance -/

namespace Reference

/-- The trace `0a`, also under the name of `0b`. -/
theorem ask_copied : ∃ w, Tampered reference key config.store.dir w ∧
    Loaded reference key (.under config.store.dir) "0a" w askTrace Prog.ask ∧
    Loaded reference key (.under config.store.dir) "0b" w askTrace Prog.ask := by
  obtain ⟨x, hx, hfiled⟩ := ask_executes
  obtain ⟨p, hp, hfile⟩ := hfiled.trace
  obtain ⟨q, hq, hsource⟩ := hfiled.program
  obtain ⟨target, htarget⟩ : ∃ target,
      keyPath (TraceStore.under config.store.dir).traces "0b" "json" = .ok target :=
    ⟨_, keyPath_eq_ok.mpr ⟨by decide, rfl⟩⟩
  have hcopied := Tampered.copied target (.executed hx) ⟨p, hp, hfile⟩
  have hpt : p ≠ target := by
    rintro rfl
    have hkeys : "0a" = "0b" := keyPath_inj hp htarget
    exact absurd hkeys (by decide)
  have hqt : q ≠ target := by
    rintro rfl
    exact (TraceStore.under_separate config.store.dir).traces_programs
      ((parent_of_keyPath htarget).symm.trans (parent_of_keyPath hq))
  have hread : Trace.fromSlice reference (askTrace.toVec reference) = some askTrace :=
    Trace.fromSlice_toVec codec askTrace
  have hverify : askTrace.verify reference (reference.verifyingKey key) = .ok () :=
    Trace.verify_sign ed25519 key _
  have hcompile : compileText reference
      ((build reference (engine.allowedSchemas "alice")).prelude ++ ask.program) =
        some Prog.ask := by
    have hcompiled := compileProgram_eq_ok.mp ask_compiles
    rwa [show terminated (build reference (engine.allowedSchemas "alice")).prelude =
      (build reference (engine.allowedSchemas "alice")).prelude from terminated_prelude _]
      at hcompiled
  have hprogram : Holds (x.2.set target (some (askTrace.toVec reference)))
      (TraceStore.under config.store.dir).programs askTrace.header.programHash "lua"
      ((build reference (engine.allowedSchemas "alice")).prelude ++ ask.program).toUTF8 := by
    refine ⟨q, hq, ?_⟩
    rw [World.set_files_ne _ _ hqt]
    exact hsource
  refine ⟨_, hcopied, ⟨⟨_, ⟨p, hp, ?_⟩, hread⟩, hverify, _, hprogram, hcompile⟩,
    ⟨⟨_, ⟨target, htarget, World.set_files_self _ _ _⟩, hread⟩, hverify, _, hprogram, hcompile⟩⟩
  rw [World.set_files_ne _ _ hpt]
  exact hfile

end Reference

open Reference in
theorem replay_vouches_reference : ∃ w, Tampered reference key config.store.dir w ∧
    Vouches reference env key config "0a" w ∧ ¬ Vouches reference env key config "0b" w := by
  obtain ⟨w, htampered, hown, hcopy⟩ := ask_copied
  refine ⟨w, htampered, ?_, ?_⟩
  · rw [replay_vouches_iff codec coreVm strictTape replay_key htampered]
    rintro ⟨t, program, hloaded, -, hother⟩
    obtain ⟨bytes, hfile, hread⟩ := hloaded.trace
    obtain ⟨bytes', hfile', hread'⟩ := hown.trace
    obtain rfl := hfile.unique hfile'
    rw [hread'] at hread
    cases hread
    exact hother rfl
  · rw [replay_vouches_iff codec coreVm strictTape replay_key htampered, not_not]
    exact ⟨askTrace, Prog.ask, hcopy, rfl, by decide⟩

open Reference in
/-- The trace `0a` copied to `traces/0b.json`: the replay of `0b` matches, and
what it loads was signed for the run `0a`. -/
theorem copied_trace_matches : ∃ w, Tampered reference key config.store.dir w ∧
    (∃ report, World.alone 0 1 (replay reference env config "0b") w = some (.ok report, w) ∧
      report.matched = true) ∧
    (∃ bytes t, Holds w (TraceStore.under config.store.dir).traces "0b" "json" bytes ∧
      Trace.fromSlice reference bytes = some t ∧ t.header.traceId = "0a") ∧
    ¬ Vouches reference env key config "0b" w := by
  obtain ⟨w, htampered, -, hcopy⟩ := ask_copied
  have hmisplaced : Misplaced reference key (.under config.store.dir) "0b" w :=
    ⟨askTrace, Prog.ask, hcopy, rfl, by decide⟩
  have hsigned := htampered.tracesSigned codec
  obtain ⟨report, halone, hmatched⟩ :=
    hmisplaced.matches codec coreVm strictTape replay_key hsigned 0 1
  obtain ⟨bytes, hfile, hread⟩ := hcopy.trace
  refine ⟨w, htampered, ⟨report, halone, hmatched⟩, ⟨bytes, askTrace, hfile, hread, rfl⟩, ?_⟩
  intro hvouches
  obtain ⟨engine, prepared, run, hvouched⟩ :=
    hvouches 0 1 report w (exec_of_alone halone) hmatched
  exact hmisplaced.not_vouchedFor hvouched

end ProvenoGateway
