/-
ProvenoGateway/Metadata.lean

What a downstream reports about itself does not reach the program.

Two behaviours of the downstreams that differ in nothing but the `_meta` of
their results are run side by side.  The two hosts stay `Twin`: their logs may
hold different provenance and their slots different blobs, but they answer
alike.  The blobs go into the records and nowhere else, so the runs stay in
lockstep to their end, whether or not the calls fail after their metadata was
read.
-/
import ProvenoGateway.Entries
import ProvenoGateway.Integrity
import ProvenoGateway.Lockstep
import ProvenoGateway.Solo

namespace ProvenoGateway

open Program

/-! ### Two behaviours -/

/-- What the downstreams answer to a request, after what the run has done so
far. -/
abbrev Behaviour : Type :=
  List Op → Client → CallToolRequestParams → Except String CallToolResult

/-- A behaviour answers requests, and nothing else. -/
def Behaviour.answers (b : Behaviour) : Environment Op Res
  | past, .toolsCall client params, r => r = b past client params
  | _, _, _ => False

theorem Behaviour.answers_unique (b : Behaviour) (past : List Op) (o : Op) (r r' : Res o)
    (h : b.answers past o r) (h' : b.answers past o r') : r = r' := by
  cases o with
  | toolsCall client params => exact h.trans h'.symm
  | _ => exact h.elim

/-- The results are the same but for the `_meta`, which is accepted. -/
structure SameResult (deps : Deps) (r r' : CallToolResult) : Prop where
  content : r'.content = r.content
  structuredContent : r'.structuredContent = r.structuredContent
  isError : r'.isError = r.isError
  accepted : ∃ reported, readProvenance deps r.meta_ = .ok reported
  accepted' : ∃ reported, readProvenance deps r'.meta_ = .ok reported

inductive SameAnswer (deps : Deps) :
    Except String CallToolResult → Except String CallToolResult → Prop
  | error (e : String) : SameAnswer deps (.error e) (.error e)
  | ok (r r' : CallToolResult) : SameResult deps r r' → SameAnswer deps (.ok r) (.ok r')

/-- The behaviours differ in the `_meta` of results only. -/
def Behaviour.Alike (deps : Deps) (b b' : Behaviour) : Prop :=
  ∀ past client params, SameAnswer deps (b past client params) (b' past client params)

/-- The answers to one operation. -/
def sameAnswers (deps : Deps) : (o : Op) → Res o → Res o → Prop
  | .toolsCall _ _, r, r' => SameAnswer deps r r'
  | _, _, _ => False

variable {deps : Deps}

theorem Behaviour.Alike.answers {b b' : Behaviour} (h : Behaviour.Alike deps b b')
    (past : List Op) (o : Op) (r : Res o) (hr : b.answers past o r) :
    ∃ r', b'.answers past o r' ∧ sameAnswers deps o r r' := by
  cases o with
  | toolsCall client params =>
    obtain rfl : r = b past client params := hr
    exact ⟨b' past client params, rfl, h past client params⟩
  | _ => exact hr.elim

/-! ### One call -/

/-- The same value, or the same error. -/
inductive SameResponse : Except String ToolResponse → Except String ToolResponse → Prop
  | error (e : String) : SameResponse (.error e) (.error e)
  | ok (r r' : ToolResponse) : r'.value = r.value → SameResponse (.ok r) (.ok r')

/-- The value does not look at the metadata. -/
theorem mapResult_same {r r' : CallToolResult} (h : SameResult deps r r') :
    mapResult deps { r' with meta_ := none } = mapResult deps { r with meta_ := none } := by
  obtain ⟨content, structured, isError, reported⟩ := r
  obtain ⟨content', structured', isError', reported'⟩ := r'
  obtain ⟨rfl, rfl, rfl, -, -⟩ := h
  rfl

/-- A response is read before its metadata, which is accepted on either
side. -/
theorem readResult_same {qualified server : String} {a a' : Except String CallToolResult}
    (h : SameAnswer deps a a') :
    SameResponse (readResult deps qualified server a) (readResult deps qualified server a') := by
  cases h with
  | error e => exact .error _
  | ok r r' hsame =>
    have hvalue := mapResult_same hsame
    obtain ⟨reported, hr⟩ := hsame.accepted
    obtain ⟨reported', hr'⟩ := hsame.accepted'
    simp only [readResult, hvalue, hr, hr']
    cases mapResult deps { r with meta_ := none } with
    | error e => exact .error e
    | ok value => exact .ok _ _ rfl

/-- The same table, or the same error; the tag and the blob may differ. -/
inductive SameAcceptance : Except String (deps.Table × Provenance × ByteArray) →
    Except String (deps.Table × Provenance × ByteArray) → Prop
  | error (e : String) : SameAcceptance (.error e) (.error e)
  | ok (t : deps.Table) (p p' : Provenance × ByteArray) : SameAcceptance (.ok (t, p)) (.ok (t, p'))

/-- Whether core can record a response depends on its value. -/
theorem accept_same {name : String} {a a' : Except String ToolResponse} (h : SameResponse a a') :
    SameAcceptance (GatewayHost.accept deps name a) (GatewayHost.accept deps name a') := by
  cases h with
  | error e => exact .error _
  | ok r r' hvalue =>
    unfold GatewayHost.accept
    simp only [Except.mapError, bind, Except.bind, hvalue]
    cases jsonToTable deps r.value with
    | error e => exact .error _
    | ok t =>
      dsimp only
      cases deps.canonicalSerializeTable t with
      | error e => exact .error _
      | ok text => exact .ok t _ _

/-- What the hosts of the two runs have in common. -/
structure Twin (host host' : GatewayHost) : Prop where
  rules : SameRules host host'
  decisions : host'.log.map Prod.fst = host.log.map Prod.fst

theorem Twin.refl (host : GatewayHost) : Twin host host := ⟨SameRules.refl host, rfl⟩

/-- The slots do not matter. -/
theorem Twin.slots {host host' : GatewayHost} (h : Twin host host') (a a' : Option ByteArray) :
    Twin { host with attestation := a } { host' with attestation := a' } :=
  ⟨⟨h.rules.principal, h.rules.downstreams, h.rules.allowed, h.rules.policy⟩, h.decisions⟩

theorem Twin.push {host host' : GatewayHost} (h : Twin host host') (d : CallDecision)
    (p p' : Provenance) : Twin (host.push d p) (host'.push d p') := by
  refine ⟨⟨h.rules.principal, h.rules.downstreams, h.rules.allowed, h.rules.policy⟩, ?_⟩
  show (host'.log ++ [(d, p')]).map Prod.fst = (host.log ++ [(d, p)]).map Prod.fst
  rw [List.map_append, List.map_append, h.decisions]
  rfl

/-- The same answer for the program, and twin hosts. -/
structure SameReply (x x' : Except String deps.Table × GatewayHost) : Prop where
  answer : x'.1 = x.1
  twin : Twin x.2 x'.2

theorem conclude_same {host host' : GatewayHost} (h : Twin host host') {name : String}
    {a a' : Except String ToolResponse} (hsame : SameResponse a a') :
    SameReply (host.conclude deps name a) (host'.conclude deps name a') := by
  unfold GatewayHost.conclude
  have haccept : SameAcceptance (GatewayHost.accept deps name a)
      (GatewayHost.accept deps name a') := accept_same hsame
  revert haccept
  generalize GatewayHost.accept deps name a = x
  generalize GatewayHost.accept deps name a' = x'
  intro haccept
  cases haccept with
  | error e => exact ⟨rfl, h.push _ _ _⟩
  | ok t p p' => exact ⟨rfl, (h.push _ _ _).slots _ _⟩

theorem call_lockstep (ds : Downstreams) (qualified : String) (v : Json) :
    Lockstep (sameAnswers deps) SameResponse (ds.call deps qualified v)
      (ds.call deps qualified v) := by
  unfold Downstreams.call
  split
  · exact .ret _ _ (.error _)
  · dsimp only
    split
    · exact .ret _ _ (.error _)
    · split
      · exact .ret _ _ (.error _)
      · apply Lockstep.call
        intro r r' hr
        exact .ret _ _ (readResult_same hr)

/-- **One call**: twin hosts refuse alike, ask alike, and remain twins. -/
theorem callTool_lockstep {host host' : GatewayHost} (h : Twin host host') (name : String)
    (args : deps.Table) :
    Lockstep (sameAnswers deps) SameReply (host.callTool deps name args)
      (host'.callTool deps name args) := by
  unfold GatewayHost.callTool
  dsimp only
  have htwin := h.slots none none
  rw [h.rules.principal, h.rules.downstreams, h.rules.allowed, h.rules.policy] at htwin ⊢
  split
  · exact .ret _ _ ⟨rfl, htwin.push _ _ _⟩
  · split
    · exact .ret _ _ ⟨rfl, htwin.push _ _ _⟩
    · split
      · exact .ret _ _ ⟨rfl, htwin.push _ _ _⟩
      · split
        · exact .ret _ _ ⟨rfl, htwin.push _ _ _⟩
        · apply Lockstep.bind (call_lockstep _ _ _)
          intro a a' hsame
          exact .ret _ _ (conclude_same htwin hsame)

/-! ### A whole run -/

/-- The records are the same but for the attestation. -/
def SameRecord (r r' : ToolCallRecord) : Prop := { r' with attestation := r.attestation } = r

/-- What is documented of core: the blob goes into the attestation of the
record, and nothing else is made of it. -/
def AttestationApart (_ : String) (_ : deps.Table)
    (record : Except String deps.Table → ByteArray → ToolCallRecord) : Prop :=
  ∀ answer blob blob', SameRecord (record answer blob) (record answer blob')

/-- The same end and meters, twin hosts, and records that are the same but for
the attestations. -/
structure SameEnd (x x' : VmEnd deps.Value × GatewayHost × List ToolCallRecord) : Prop where
  result : x'.1 = x.1
  twin : Twin x.2.1 x'.2.1
  records : List.Forall₂ SameRecord x.2.2 x'.2.2

theorem forall₂_concat {R : ToolCallRecord → ToolCallRecord → Prop} {l l' : List ToolCallRecord}
    (h : List.Forall₂ R l l') {r r' : ToolCallRecord} (hr : R r r') :
    List.Forall₂ R (l ++ [r]) (l' ++ [r']) :=
  List.rel_append h (.cons hr .nil)

/-- **A run against twin hosts**: by induction on the calls, each of which
leaves twins and records that agree. -/
theorem drive_lockstep {run : VmRun deps.Value deps.Table} (hrun : run.EachCall AttestationApart)
    {host host' : GatewayHost} (h : Twin host host') {records records' : List ToolCallRecord}
    (hrecords : List.Forall₂ SameRecord records records') :
    Lockstep (sameAnswers deps) SameEnd
      (drive deps (GatewayHost.interface deps) run host records)
      (drive deps (GatewayHost.interface deps) run host' records') := by
  induction run generalizing host host' records records' with
  | done e => exact .ret _ _ ⟨rfl, h, hrecords⟩
  | call name args record next ih =>
    rw [drive_call, drive_call]
    apply Lockstep.bind (callTool_lockstep h name args)
    rintro ⟨answer, host₁⟩ ⟨answer', host₁'⟩ ⟨hanswer, htwin⟩
    obtain rfl : answer' = answer := hanswer
    cases answer' with
    | error e =>
      -- core asks for no blob after an error
      exact ih _ (hrun.2 _) htwin (forall₂_concat hrecords (hrun.1 _ _ _))
    | ok t =>
      apply ih _ (hrun.2 _) (htwin.slots none none)
      cases deps.canonicalSerializeTable t with
      | error e =>
        dsimp only
        rw [List.append_nil, List.append_nil]
        exact hrecords
      | ok text => exact forall₂_concat hrecords (hrun.1 _ _ _)

/-- The same decision, and records that are the same but for the
attestation. -/
structure SameEntry (entry entry' : TraceEntry) : Prop where
  decision : entry'.decision = entry.decision
  record : SameRecord entry.record entry'.record

theorem zipEntries_same {records records' : List ToolCallRecord}
    {log log' : List (CallDecision × Provenance)} (h : List.Forall₂ SameRecord records records')
    (hlog : log'.map Prod.fst = log.map Prod.fst) :
    List.Forall₂ SameEntry (Engine.zipEntries records log) (Engine.zipEntries records' log') := by
  induction h generalizing log log' with
  | nil => exact .nil
  | cons hr _ ih =>
    cases log with
    | nil =>
      rw [List.map_nil, List.map_eq_nil_iff] at hlog
      rw [hlog]
      exact .nil
    | cons entry log =>
      cases log' with
      | nil => cases hlog
      | cons entry' log' =>
        rw [List.map_cons, List.map_cons, List.cons.injEq] at hlog
        exact .cons ⟨hlog.1, hr⟩ (ih hlog.2)

/-- The same outcome, and entries that are the same but for provenance and
attestation. -/
structure SameRun (run run' : Engine.RunResult) : Prop where
  outcome : run'.outcome = run.outcome
  entries : List.Forall₂ SameEntry run.entries run'.entries

theorem runThread_lockstep {engine : Engine} {prepared : Engine.Prepared deps}
    (hrun : (deps.execute prepared.program (VmConfig.ofSettings engine.vm)).EachCall
      AttestationApart) :
    Lockstep (sameAnswers deps) SameRun (engine.runThread deps prepared)
      (engine.runThread deps prepared) := by
  apply Lockstep.bind (drive_lockstep hrun (Twin.refl prepared.host) .nil)
  rintro ⟨e, host, records⟩ ⟨e', host', records'⟩ ⟨hend, htwin, hrecords⟩
  obtain rfl : e' = e := hend
  have hlength : records.length = records'.length := hrecords.length_eq
  have hlog : host.log.length = host'.log.length := by
    have hdecisions := congrArg List.length htwin.decisions
    rw [List.length_map, List.length_map] at hdecisions
    exact hdecisions.symm
  dsimp only
  rw [hlength, hlog]
  split
  · exact .ret _ _ ⟨rfl, zipEntries_same hrecords htwin.decisions⟩
  · exact .call _ _ _ fun r => nomatch r

/-- The thread of a prepared run returns, whatever the downstreams do. -/
theorem runThread_returns (b : Behaviour) (engine : Engine) (principal : String)
    (req : ExecuteRequest) (program : deps.CompiledProgram) (traceId : String) :
    ∃ evs run, Under b.answers []
      (engine.runThread deps (engine.preparedOf deps principal req program traceId)) evs run := by
  have hanswers : ∀ past o, (∃ client params, o = .toolsCall client params) →
      ∃ r, b.answers past o r := by
    rintro past _ ⟨client, params, rfl⟩
    exact ⟨b past client params, rfl⟩
  have huses : (drive deps (GatewayHost.interface deps)
      (deps.execute program (VmConfig.ofSettings engine.vm))
      (engine.preparedOf deps principal req program traceId).host []).Uses fun o =>
        ∃ client params, o = .toolsCall client params :=
    drive_uses (callTool_uses fun client params => ⟨client, params, rfl⟩) _ _ _
  obtain ⟨evs, ⟨e, last, records⟩, hdrive⟩ := Under.of_uses hanswers huses []
  -- a record for each entry of the log, so no panic
  have hlength : records.length = last.log.length := by
    obtain ⟨calls, hrecording, hrecords, -⟩ := drive_recording hdrive.runs
    obtain ⟨entries, hlog, hpaired⟩ := hrecording.paired
    rw [hrecords, hlog, List.nil_append, List.length_map, hpaired.length_eq]
    rfl
  refine ⟨evs ++ [], ⟨Engine.zipEntries records last.log, outcome deps e engine.vm.maxOutputBytes
    (engine.preparedOf deps principal req program traceId).preludeLines⟩, Under.bind hdrive ?_⟩
  dsimp only
  rw [if_pos hlength]
  exact Under.ret _ _

/-- For every engine, principal, program and request: under two behaviours
that differ in accepted `_meta` only, there is one run each.  The two perform
the same operations, have the same outcome, and their entries are the same but
for provenance and attestation. -/
theorem metadata_apart (engine : Engine) (principal : String) (req : ExecuteRequest)
    (program : deps.CompiledProgram) (traceId : String)
    (hcore : (deps.execute program (VmConfig.ofSettings engine.vm)).EachCall AttestationApart)
    {b b' : Behaviour} (h : Behaviour.Alike deps b b') :
    ∃ evs run evs' run',
      Sole b.answers (engine.runThread deps
        (engine.preparedOf deps principal req program traceId)) evs run ∧
      Sole b'.answers (engine.runThread deps
        (engine.preparedOf deps principal req program traceId)) evs' run' ∧
      evs'.map Sigma.fst = evs.map Sigma.fst ∧ SameRun run run' := by
  obtain ⟨evs, run, hrun⟩ := runThread_returns b engine principal req program traceId
  obtain ⟨evs', run', hrun', hops, hsame⟩ :=
    (runThread_lockstep hcore).under h.answers hrun
  exact ⟨evs, run, evs', run', hrun.sole b.answers_unique, hrun'.sole b'.answers_unique, hops,
    hsame⟩

/-! ### At the instance -/

namespace Reference

/-- Every request is answered with `noted`. -/
def notedAlways : Behaviour := fun _ _ _ => .ok noted

/-- The same without a report. -/
def unnotedAlways : Behaviour := fun _ _ _ => .ok { noted with meta_ := none }

theorem noted_accepted : ∃ reported, readProvenance reference noted.meta_ = .ok reported :=
  ⟨_, rfl⟩

theorem noted_alike : Behaviour.Alike reference notedAlways unnotedAlways :=
  fun _ _ _ => .ok _ _ ⟨rfl, rfl, rfl, noted_accepted, ⟨_, rfl⟩⟩

theorem asking_apart : VmRun.EachCall (@AttestationApart reference) asking :=
  ⟨fun _ _ _ => rfl, fun answer => by cases answer <;> trivial⟩

end Reference

open Reference in
theorem metadata_apart_ask :
    ∃ evs run evs' run',
      Sole notedAlways.answers (engine.runThread reference askPrepared) evs run ∧
      Sole unnotedAlways.answers (engine.runThread reference askPrepared) evs' run' ∧
      evs'.map Sigma.fst = evs.map Sigma.fst ∧ SameRun run run' :=
  @metadata_apart reference engine "alice" ask .ask "0a" asking_apart _ _ noted_alike

end ProvenoGateway
