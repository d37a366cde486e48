/-
ProvenoGateway/Entries.lean

A run of the VM against the gateway, call by call.

`Recording` lists the calls of a run, each with the host before and after,
what was sent, the answer, the blob core was handed and the record it kept.
`drive_recording` says that every run is such a list and that the transcript
and the log are its two columns; so the two have the same length, and joining
them by position joins each record with the log entry of its own call.

The blob reaches the record through the one-slot field of the host.  The slot
is emptied at the start of each call and filled only by the answer to that
call, which is why no blob turns up on another entry.
-/
import ProvenoGateway.Engine
import ProvenoGateway.Mediation
import ProvenoGateway.Provenance

namespace ProvenoGateway

open Program

/-! ### The answer to one call -/

section Answer

variable {deps : Deps}

/-- A dispatched call sends at most one request, and what it returns is read
from the answer to that request. -/
theorem call_sends {ds : Downstreams} {qualified : String} {v : Json}
    {evs : List (Event Op Res)} {response : Except String ToolResponse}
    (h : Runs (ds.call deps qualified v) evs response) :
    (evs = [] ∧ ∃ e, response = .error e) ∨
    (∃ client params answer server, evs = [⟨.toolsCall client params, answer⟩] ∧
      response = readResult deps qualified server answer) := by
  unfold Downstreams.call at h
  split at h
  case h_1 =>
    obtain ⟨rfl, rfl⟩ := runs_ret_iff.mp h
    exact Or.inl ⟨rfl, _, rfl⟩
  case h_2 server tool _ =>
    dsimp only at h
    split at h
    case h_1 =>
      obtain ⟨rfl, rfl⟩ := runs_ret_iff.mp h
      exact Or.inl ⟨rfl, _, rfl⟩
    case h_2 client _ =>
      split at h
      case h_1 =>
        obtain ⟨rfl, rfl⟩ := runs_ret_iff.mp h
        exact Or.inl ⟨rfl, _, rfl⟩
      case h_2 arguments _ =>
        simp only [op_bind, pure_eq, runs_call_iff, runs_ret_iff] at h
        obtain ⟨answer, evs', rfl, rfl, rfl⟩ := h
        exact Or.inr ⟨client, _, answer, server, rfl, rfl⟩

/-- A response is read from a result of the client, provenance and all. -/
theorem readResult_ok {qualified server : String} {answer : Except String CallToolResult}
    {response : ToolResponse} (h : readResult deps qualified server answer = .ok response) :
    ∃ result, answer = .ok result ∧
      readProvenance deps result.meta_ = .ok (response.provenance, response.attestation) := by
  cases answer with
  | error e => cases h
  | ok result =>
    refine ⟨result, rfl, ?_⟩
    simp only [readResult] at h
    cases hv : mapResult deps { result with meta_ := none } with
    | error e => simp [hv, bind, Except.bind] at h
    | ok v =>
      cases hp : readProvenance deps result.meta_ with
      | error e => simp [hv, hp, bind, Except.bind, Except.mapError] at h
      | ok r =>
        simp only [hv, hp, bind, Except.bind, Except.mapError, Except.ok.injEq] at h
        rw [← h]

/-- What is accepted is the response, as a table core can record. -/
theorem accept_ok {name : String} {response : Except String ToolResponse} {t : deps.Table}
    {p : Provenance} {attestation : ByteArray}
    (h : GatewayHost.accept deps name response = .ok (t, p, attestation)) :
    (∃ text, deps.canonicalSerializeTable t = .ok text) ∧
      ∃ r, response = .ok r ∧ r.provenance = p ∧ r.attestation = attestation := by
  unfold GatewayHost.accept at h
  cases response with
  | error e => simp [Except.mapError, bind, Except.bind] at h
  | ok r =>
    cases ht : jsonToTable deps r.value with
    | error e => simp [Except.mapError, ht, bind, Except.bind] at h
    | ok table =>
      cases hc : deps.canonicalSerializeTable table with
      | error e => simp [Except.mapError, ht, hc, bind, Except.bind] at h
      | ok text =>
        simp only [Except.mapError, ht, hc, bind, Except.bind, Except.ok.injEq,
          Prod.mk.injEq] at h
        obtain ⟨rfl, rfl, rfl⟩ := h
        exact ⟨⟨text, hc⟩, r, rfl, rfl, rfl⟩

/-- An answer that is a table can be recorded. -/
theorem CallStep.Ok.canonical {c : CallStep deps} (h : c.Ok) {t : deps.Table}
    (ht : c.answer = .ok t) : ∃ text, deps.canonicalSerializeTable t = .ok text := by
  rcases callTool_runs h with ⟨d, -, -, hanswer, -⟩ | ⟨tool, v, response, -, -, hc⟩
  · rw [hanswer] at ht
    cases ht
  · unfold GatewayHost.conclude at hc
    split at hc
    case h_1 table p a ha =>
      simp only [Prod.mk.injEq] at hc
      rw [ht] at hc
      cases hc.1
      exact (accept_ok ha).1
    case h_2 =>
      simp only [Prod.mk.injEq] at hc
      rw [ht] at hc
      cases hc.1

end Answer

/-! ### The calls of a run -/

section Recordings

variable (deps : Deps)

/-- One call as core saw it: the blob it was handed (empty if none) and the
record it kept. -/
structure Recorded where
  step : CallStep deps
  blob : ByteArray
  record : ToolCallRecord

/-- The blob core is handed after a call. -/
def CallStep.blob {deps : Deps} (c : CallStep deps) : ByteArray :=
  match c.answer with
  | .error _ => ByteArray.empty
  | .ok _ => c.next.attestation.getD ByteArray.empty

/-- The host as core leaves it after a call. -/
def CallStep.after {deps : Deps} (c : CallStep deps) : GatewayHost :=
  match c.answer with
  | .error _ => c.next
  | .ok _ => c.next.takeAttestation.2

/-- `Recording deps run host calls e last`: against `host`, the run makes
`calls`, ends with `e` and leaves `last`. -/
inductive Recording : VmRun deps.Value deps.Table → GatewayHost → List (Recorded deps) →
    VmEnd deps.Value → GatewayHost → Prop
  | done (e : VmEnd deps.Value) (host : GatewayHost) : Recording (.done e) host [] e host
  | call (c : CallStep deps) {record : Except String deps.Table → ByteArray → ToolCallRecord}
      {next : Except String deps.Table → VmRun deps.Value deps.Table}
      {rest : List (Recorded deps)} {e : VmEnd deps.Value} {last : GatewayHost} :
      c.Ok → Recording (next c.answer) c.after rest e last →
      Recording (.call c.name c.args record next) c.host
        (⟨c, c.blob, record c.answer c.blob⟩ :: rest) e last

variable {deps}

/-- **Every run is a recording**, and the transcript is its column of
records. -/
theorem drive_recording {run : VmRun deps.Value deps.Table} {host last : GatewayHost}
    {transcript transcript' : List ToolCallRecord} {evs : List (Event Op Res)}
    {e : VmEnd deps.Value}
    (h : Runs (drive deps (GatewayHost.interface deps) run host transcript) evs
      (e, last, transcript')) :
    ∃ calls, Recording deps run host calls e last ∧
      transcript' = transcript ++ calls.map Recorded.record ∧
      evs = (calls.map fun c => c.step.events).flatten := by
  induction run generalizing host transcript evs with
  | done e' =>
    obtain ⟨rfl, h⟩ := runs_ret_iff.mp h
    cases h
    exact ⟨[], .done _ _, by simp, rfl⟩
  | call name args record next ih =>
    rw [drive] at h
    obtain ⟨⟨answer, host'⟩, evs₁, evs₂, rfl, h₁, h₂⟩ := runs_bind_iff.mp h
    have hok : (⟨host, name, args, evs₁, answer, host'⟩ : CallStep deps).Ok := h₁
    cases answer with
    | error err =>
      obtain ⟨calls, hrec, htrans, hevs⟩ := ih _ h₂
      refine ⟨_, .call _ hok hrec, ?_, ?_⟩
      · rw [htrans, List.append_assoc]
        rfl
      · rw [hevs]
        rfl
    | ok t =>
      obtain ⟨text, htext⟩ := hok.canonical rfl
      obtain ⟨calls, hrec, htrans, hevs⟩ := ih _ h₂
      refine ⟨_, .call _ hok hrec, ?_, ?_⟩
      · simp only [htext] at htrans
        rw [htrans, List.append_assoc]
        rfl
      · rw [hevs]
        rfl

theorem CallStep.after_log (c : CallStep deps) : c.after.log = c.next.log := by
  unfold CallStep.after
  split <;> rfl

/-- The calls of a run are a sequence of calls on the host. -/
theorem Recording.calls {run : VmRun deps.Value deps.Table} {host last : GatewayHost}
    {calls : List (Recorded deps)} {e : VmEnd deps.Value}
    (h : Recording deps run host calls e last) : Calls deps host (calls.map Recorded.step) last := by
  induction h with
  | done e host => exact .nil host
  | call c hok hrec ih =>
    refine .call c hok ?_
    unfold CallStep.after at ih
    split at ih
    · exact ih
    · exact .take ih

/-! ### Pairing -/

/-- The log entry `entry` is the one this call left, and its blob is its
own. -/
structure Paired (c : Recorded deps) (entry : CallDecision × Provenance) : Prop where
  log : c.step.next.log = c.step.host.log ++ [entry]
  reported : Reported entry.2 c.blob
  failed : ∀ e, c.step.answer = .error e → entry.2 = .unsigned ∧ c.blob = ByteArray.empty
  own : c.blob ≠ ByteArray.empty → ∃ client params result,
    c.step.events = [⟨.toolsCall client params, .ok result⟩] ∧
      readProvenance deps result.meta_ = .ok (entry.2, c.blob)

theorem getD_filter_isEmpty (a : ByteArray) :
    ((some a).filter fun a => !a.isEmpty).getD ByteArray.empty = a := by
  by_cases h : a.isEmpty
  · have ha : a = ByteArray.empty := by
      rw [← ByteArray.size_eq_zero_iff]
      simpa [ByteArray.isEmpty] using h
    rw [ha]
    rfl
  · rw [Option.filter_some, if_pos (by simpa using h)]
    rfl

theorem CallStep.Ok.paired {c : CallStep deps} (h : c.Ok) (record : ToolCallRecord) :
    ∃ entry, Paired ⟨c, c.blob, record⟩ entry := by
  rcases callTool_runs h with ⟨d, -, -, hanswer, hnext⟩ | ⟨tool, v, response, -, hcall, hc⟩
  · have hblob : c.blob = ByteArray.empty := by simp [CallStep.blob, hanswer]
    refine ⟨(d, .unsigned), ⟨by rw [hnext]; rfl, ?_, ?_, ?_⟩⟩
    · rw [hblob]
      exact .unsigned
    · exact fun _ _ => ⟨rfl, hblob⟩
    · exact fun hne => absurd hblob hne
  · unfold GatewayHost.conclude at hc
    split at hc
    case h_2 e _ =>
      simp only [Prod.mk.injEq] at hc
      have hblob : c.blob = ByteArray.empty := by simp [CallStep.blob, hc.1]
      refine ⟨(.allowed, .unsigned), ⟨by rw [hc.2]; rfl, ?_, ?_, ?_⟩⟩
      · rw [hblob]
        exact .unsigned
      · exact fun _ _ => ⟨rfl, hblob⟩
      · exact fun hne => absurd hblob hne
    case h_1 t p a ha =>
      simp only [Prod.mk.injEq] at hc
      have hblob : c.blob = a := by
        simp only [CallStep.blob, hc.1, hc.2]
        exact getD_filter_isEmpty a
      obtain ⟨-, r, hr, rfl, rfl⟩ := accept_ok ha
      rcases call_sends hcall with ⟨-, err, herr⟩ | ⟨client, params, answer, server, hevs, hread⟩
      · rw [hr] at herr
        cases herr
      · obtain ⟨result, rfl, hprov⟩ := readResult_ok (hread.symm.trans hr)
        refine ⟨(.allowed, r.provenance), ⟨by rw [hc.2]; rfl, ?_, ?_, ?_⟩⟩
        · rw [hblob]
          exact readProvenance_ok hprov
        · intro e he
          rw [hc.1] at he
          cases he
        · rw [hblob]
          exact fun _ => ⟨client, params, result, hevs, hprov⟩

/-- The log is the other column of a recording. -/
theorem Recording.paired {run : VmRun deps.Value deps.Table} {host last : GatewayHost}
    {calls : List (Recorded deps)} {e : VmEnd deps.Value}
    (h : Recording deps run host calls e last) :
    ∃ entries, last.log = host.log ++ entries ∧ List.Forall₂ Paired calls entries := by
  induction h with
  | done e host => exact ⟨[], by simp, .nil⟩
  | @call c record next rest e last hok _ ih =>
    obtain ⟨entry, hp⟩ := hok.paired (record c.answer c.blob)
    obtain ⟨entries, hlog, hall⟩ := ih
    refine ⟨entry :: entries, ?_, .cons hp hall⟩
    rw [hlog, c.after_log, hp.log]
    simp

end Recordings

/-! ### The entries of a trace -/

variable {deps : Deps}

/-- Core puts the blob it was handed into the record, and nothing else. -/
def RecordsAttestation (_ : String) (_ : deps.Table)
    (record : Except String deps.Table → ByteArray → ToolCallRecord) : Prop :=
  ∀ answer blob, (record answer blob).attestation = blob

/-- The trace entry of a call. -/
structure EntryOf (c : Recorded deps) (entry : TraceEntry) : Prop where
  record : entry.record = c.record
  log : c.step.next.log = c.step.host.log ++ [(entry.decision, entry.provenance)]
  empty_iff : entry.record.attestation = ByteArray.empty ↔ entry.provenance = .unsigned
  read : entry.record.attestation ≠ ByteArray.empty →
    (Json.readSlice entry.record.attestation).bind Provenance.fromJson = some entry.provenance
  failed : ∀ e, c.step.answer = .error e →
    entry.provenance = .unsigned ∧ entry.record.attestation = ByteArray.empty
  own : entry.record.attestation ≠ ByteArray.empty → ∃ client params result,
    c.step.events = [⟨.toolsCall client params, .ok result⟩] ∧
      readProvenance deps result.meta_ = .ok (entry.provenance, entry.record.attestation)

theorem Paired.entryOf {c : Recorded deps} {entry : CallDecision × Provenance}
    (h : Paired c entry) (hblob : c.record.attestation = c.blob) :
    EntryOf c ⟨c.record, entry.1, entry.2⟩ where
  record := rfl
  log := h.log
  empty_iff := by
    rw [hblob]
    exact h.reported.empty_iff
  read := by
    rw [hblob]
    exact h.reported.read
  failed e he := by
    rw [hblob]
    exact h.failed e he
  own := by
    rw [hblob]
    exact h.own

theorem Recording.blobs {run : VmRun deps.Value deps.Table} {host last : GatewayHost}
    {calls : List (Recorded deps)} {e : VmEnd deps.Value}
    (h : Recording deps run host calls e last) (hrun : run.EachCall RecordsAttestation) :
    ∀ c ∈ calls, c.record.attestation = c.blob := by
  induction h with
  | done => simp
  | call c _ _ ih =>
    intro d hd
    rcases List.mem_cons.mp hd with rfl | hd
    · exact hrun.1 _ _
    · exact ih (hrun.2 _) d hd

theorem zipEntries_entryOf {calls : List (Recorded deps)}
    {entries : List (CallDecision × Provenance)} (h : List.Forall₂ Paired calls entries)
    (hblobs : ∀ c ∈ calls, c.record.attestation = c.blob) :
    List.Forall₂ EntryOf calls (Engine.zipEntries (calls.map Recorded.record) entries) := by
  induction h with
  | nil => exact .nil
  | cons hp _ ih =>
    refine .cons (hp.entryOf (hblobs _ List.mem_cons_self)) (ih ?_)
    exact fun c hc => hblobs c (List.mem_cons_of_mem _ hc)

/-- Every run of the VM against a fresh host: as many records as log entries,
and joined by position they are the entries of the calls, one by one. -/
theorem entries_pair_calls {run : VmRun deps.Value deps.Table}
    (hrun : run.EachCall RecordsAttestation) {principal : String} {ds : Downstreams}
    {allowed : List ToolSchema} {policy : Policy} {evs : List (Event Op Res)}
    {e : VmEnd deps.Value} {last : GatewayHost} {transcript : List ToolCallRecord}
    (h : Runs (drive deps (GatewayHost.interface deps) run
      (GatewayHost.fresh principal ds allowed policy) []) evs (e, last, transcript)) :
    transcript.length = last.log.length ∧
      ∃ calls, Recording deps run (GatewayHost.fresh principal ds allowed policy) calls e last ∧
        transcript = calls.map Recorded.record ∧
        List.Forall₂ EntryOf calls (Engine.zipEntries transcript last.log) := by
  obtain ⟨calls, hrec, htrans, -⟩ := drive_recording h
  obtain ⟨entries, hlog, hall⟩ := hrec.paired
  rw [List.nil_append] at htrans
  have hlog : last.log = entries := hlog
  refine ⟨?_, calls, hrec, htrans, ?_⟩
  · rw [htrans, hlog, List.length_map, hall.length_eq]
  · rw [htrans, hlog]
    exact zipEntries_entryOf hall (hrec.blobs hrun)

namespace Reference

/-- A run with one call, answered as `noted`. -/
theorem asking_runs : Runs (drive reference (GatewayHost.interface reference) asking
    (host objectSchema) []) [⟨Op.toolsCall client ⟨"t", some []⟩, .ok noted⟩]
    (⟨.ok (.table (.fields [("v", .nat 1)])), 2, 2⟩, (asked (.ok noted)).after,
      [record "s.t" (.fields []) (.ok (.fields [("v", .nat 1)])) (asked (.ok noted)).blob]) := by
  have hanswer : (asked (.ok noted)).answer = .ok (.fields [("v", .nat 1)]) := rfl
  rw [show drive reference (GatewayHost.interface reference) asking (host objectSchema) [] = _
    from drive_call reference (GatewayHost.interface reference) "s.t" (.fields []) _ _ _ _]
  refine runs_bind_iff.mpr ⟨_, _, [], rfl, asked_ok (.ok noted), ?_⟩
  rw [hanswer]
  exact Runs.ret _

theorem asking_recordsAttestation :
    VmRun.EachCall (@RecordsAttestation reference) asking :=
  ⟨fun _ _ => rfl, fun answer => by cases answer <;> trivial⟩

end Reference

open Reference in
theorem entries_pair_calls_reference :
    1 = (asked (.ok noted)).next.log.length ∧
      ∃ calls e, Recording reference asking (host objectSchema) calls e (asked (.ok noted)).after ∧
        List.Forall₂ EntryOf calls (Engine.zipEntries
          [record "s.t" (.fields []) (.ok (.fields [("v", .nat 1)])) (asked (.ok noted)).blob]
          (asked (.ok noted)).next.log) := by
  obtain ⟨hlength, calls, hrec, -, hentries⟩ :=
    entries_pair_calls asking_recordsAttestation asking_runs
  exact ⟨hlength, calls, _, hrec, hentries⟩

/-! ### What a decision says about dispatch -/

theorem requestArguments_isSome {v : Json} :
    (requestArguments v).isSome ↔ v.isObject = true ∨ v.isNull = true := by
  cases v <;> simp [requestArguments, Json.isObject, Json.isNull]

/-- The decision in `entry` against what was sent for the call. -/
structure Dispatched (deps : Deps) (host : GatewayHost) (c : CallStep deps)
    (entry : CallDecision × Provenance) : Prop where
  /-- `Allowed` is recorded for the calls that pass the four stages. -/
  allowed_iff : entry.1 = .allowed ↔ ∃ tool v, Passes deps host c.name c.args tool v
  /-- A request is sent for those whose arguments are an object. -/
  sent_iff : (∃ client params answer, c.events = [⟨.toolsCall client params, answer⟩]) ↔
    entry.1 = .allowed ∧
      ∃ v, tableToJson deps c.args = .ok v ∧ (v.isObject = true ∨ v.isNull = true)
  /-- The others are refused on the spot, and for no other reason. -/
  unsent : entry.1 = .allowed → c.events = [] →
    c.answer = .error s!"downstream: {c.name}: arguments must be a JSON object"

theorem CallStep.Ok.dispatched {net : Network} {c : CallStep deps} (h : c.Ok)
    (hds : c.host.downstreams.WellFormed net)
    (hallowed : ∀ t ∈ c.host.allowed, t ∈ c.host.downstreams.tools) :
    ∃ entry, c.next.log = c.host.log ++ [entry] ∧ Dispatched deps c.host c entry := by
  rcases callTool_runs h with ⟨d, hd, hevs, hanswer, hnext⟩ | ⟨tool, v, response, hp, hcall, hc⟩
  · have hne : d ≠ .allowed := fun hd' => (hd' ▸ hd).not_allowed
    refine ⟨(d, .unsigned), by rw [hnext]; rfl, ⟨?_, ?_, fun hd' => absurd hd' hne⟩⟩
    · exact ⟨fun hd' => absurd hd' hne, fun ⟨tool, v, hp⟩ => (hd.not_passes hp).elim⟩
    · rw [hevs]
      exact ⟨fun ⟨_, _, _, hcons⟩ => by (cases hcons), fun ⟨hd', _⟩ => absurd hd' hne⟩
  · obtain ⟨hmem, hname⟩ := hp.mem
    obtain ⟨-, provenance, hlog⟩ := conclude_push hc
    rw [← hname] at hcall
    refine ⟨_, hlog, ?_⟩
    rcases call_runs hds (hallowed tool hmem) hcall with
      ⟨client, arguments, answer, -, -, -, hargs, hevs, -⟩ | ⟨hargs, hevs, hresponse⟩
    · have hsome : v.isObject = true ∨ v.isNull = true :=
        requestArguments_isSome.mp (by rw [hargs]; rfl)
      refine ⟨⟨fun _ => ⟨tool, v, hp⟩, fun _ => rfl⟩, ⟨?_, ?_⟩, ?_⟩
      · exact fun _ => ⟨rfl, v, hp.serialises, hsome⟩
      · exact fun _ => ⟨_, _, _, hevs⟩
      · intro _ hnil
        rw [hevs] at hnil
        cases hnil
    · refine ⟨⟨fun _ => ⟨tool, v, hp⟩, fun _ => rfl⟩, ⟨?_, ?_⟩, ?_⟩
      · rintro ⟨_, _, _, hcons⟩
        rw [hevs] at hcons
        cases hcons
      · rintro ⟨-, w, hw, hobj⟩
        rw [hp.serialises] at hw
        cases hw
        have hsome := requestArguments_isSome.mpr hobj
        rw [hargs] at hsome
        cases hsome
      · intro _ _
        rw [hresponse, hname] at hc
        have ha : GatewayHost.accept deps c.name
            (.error s!"{c.name}: arguments must be a JSON object") =
            .error s!"downstream: {c.name}: arguments must be a JSON object" := by
          simp [GatewayHost.accept, Except.mapError, bind, Except.bind, toString,
            String.append_assoc]
        simp only [GatewayHost.conclude, ha, Prod.mk.injEq] at hc
        exact hc.1

theorem Dispatched.same {host host' : GatewayHost} (h : SameRules host host') {c : CallStep deps}
    {entry : CallDecision × Provenance} (hd : Dispatched deps host' c entry) :
    Dispatched deps host c entry where
  allowed_iff := by
    rw [hd.allowed_iff]
    exact exists_congr fun tool => exists_congr fun v => Passes.same h
  sent_iff := hd.sent_iff
  unsent := hd.unsent

/-- Every run of the VM against a host for discovered tools: the decisions
tell what passed, and what passed was sent if its arguments are an object. -/
theorem decisions_tell_dispatch {net : Network} {env : String → Option String}
    {toml : String → Except String GatewayConfig} {text base : String} {config : GatewayConfig}
    {ds : Downstreams} (hparse : parse toml text base = .ok config)
    (hconnect : Downstreams.connect env net config.downstream = .ok ds)
    (principal : String) (policy : Policy) {allowed : List ToolSchema}
    (hallowed : ∀ t ∈ allowed, t ∈ ds.tools) {run : VmRun deps.Value deps.Table}
    {evs : List (Event Op Res)} {e : VmEnd deps.Value} {last : GatewayHost}
    {transcript : List ToolCallRecord}
    (h : Runs (drive deps (GatewayHost.interface deps) run
      (GatewayHost.fresh principal ds allowed policy) []) evs (e, last, transcript)) :
    ∃ calls, Recording deps run (GatewayHost.fresh principal ds allowed policy) calls e last ∧
      List.Forall₂ (Dispatched deps (GatewayHost.fresh principal ds allowed policy))
        (calls.map Recorded.step) last.log := by
  have hds : ds.WellFormed net := connect_wellFormed (parse_downstreams hparse) hconnect
  obtain ⟨calls, hrec, -, -⟩ := drive_recording h
  obtain ⟨entries, hlog, hall⟩ := hrec.calls.each fun c hok hsame => by
    obtain ⟨entry, hentry, hd⟩ := hok.dispatched
      (show c.host.downstreams.WellFormed net by rw [hsame.downstreams]; exact hds)
      (by rw [hsame.allowed, hsame.downstreams]; exact hallowed)
    exact ⟨entry, hentry, hd.same hsame⟩
  have hlog : last.log = entries := hlog
  exact ⟨calls, hrec, by rw [hlog]; exact hall⟩

open Reference in
theorem decisions_tell_dispatch_reference :
    ∃ calls e, Recording reference asking (host objectSchema) calls e (asked (.ok noted)).after ∧
      List.Forall₂ (Dispatched reference (host objectSchema)) (calls.map Recorded.step)
        (asked (.ok noted)).next.log := by
  obtain ⟨calls, hrec, hall⟩ := decisions_tell_dispatch parse_config
    (connect_config objectSchema) "alice" policy (fun _ ht => ht) asking_runs
  exact ⟨calls, _, hrec, hall⟩

open Reference in
/-- A tool whose schema accepts anything, called with the table `{1}`: recorded
as allowed, and never sent. -/
theorem allowed_without_dispatch :
    tableToJson reference (.list (.nat 1) []) = .ok (.arr [.num (.posInt 1)]) ∧
      Runs ((host []).callTool reference "s.t" (.list (.nat 1) [])) []
        (.error "downstream: s.t: arguments must be a JSON object",
          (host []).push .allowed .unsigned) := by
  have hargs : tableToJson reference (.list (.nat 1) []) = .ok (.arr [.num (.posInt 1)]) :=
    tableToJson_eq rfl
  refine ⟨hargs, ?_⟩
  unfold GatewayHost.callTool
  dsimp only
  rw [hargs]
  exact Runs.ret _

end ProvenoGateway
