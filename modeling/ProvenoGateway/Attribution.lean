/-
ProvenoGateway/Attribution.lean

Whose a stored trace is.

Gateways that share a store directory serve requests concurrently; requests
come at any time, I/O faults strike and processes crash.  The invariant is
about the files under `traces` alone: each is the signed trace of an execute
that some request asked for, in the name of the principal whose token that
request bears (`traces_attributed`).  No thread needs anything of the others
for it, so the protocol relies on nothing: a trace is made from what its own
thread was handed.
-/
import ProvenoGateway.Authority

namespace ProvenoGateway

open Program Interleave

/-! ### Lawful entries -/

/-- The recorded call is one the rules admit. -/
structure Lawful (deps : Deps) (engine : Engine) (p : String) (entry : TraceEntry) : Prop where
  covered : ∃ args tool v, entry.record.toolName = tool.qualifiedName ∧
    entry.record.argsCanonical = deps.argsCanonical args ∧ tableToJson deps args = .ok v ∧
    tool ∈ engine.allowedSchemas p ∧ checkArgs deps tool v = .ok () ∧
    engine.policy.check p tool.qualifiedName v = .allow

section Entries

variable {deps : Deps}

/-- A record is of the call it was made for. -/
theorem Recording.records {run : VmRun deps.Value deps.Table} {host last : GatewayHost}
    {calls : List (Recorded deps)} {e : VmEnd deps.Value}
    (h : Recording deps run host calls e last) (hrecords : run.EachCall (RecordsCall deps)) :
    ∀ c ∈ calls, c.record.toolName = c.step.name ∧
      c.record.argsCanonical = deps.argsCanonical c.step.args := by
  induction h with
  | done e host => simp
  | @call c record next rest e last hok _ ih =>
    refine List.forall_mem_cons.mpr ⟨⟨?_, ?_⟩, ih (hrecords.2 _)⟩
    · exact hrecords.1.toolName _ _
    · exact hrecords.1.argsCanonical _ _

/-- An entry joins the record of a call with its place in the log. -/
theorem mem_zipEntries {P : CallStep deps → CallDecision × Provenance → Prop}
    {calls : List (Recorded deps)} {log : List (CallDecision × Provenance)}
    (h : List.Forall₂ P (calls.map Recorded.step) log) :
    ∀ entry ∈ Engine.zipEntries (calls.map Recorded.record) log,
      ∃ c ∈ calls, entry.record = c.record ∧ P c.step (entry.decision, entry.provenance) := by
  induction calls generalizing log with
  | nil => simp [Engine.zipEntries]
  | cons c calls ih =>
    rw [List.map_cons] at h
    cases h with
    | cons hhd htl =>
      rw [List.map_cons, Engine.zipEntries, List.zipWith_cons_cons, List.forall_mem_cons]
      refine ⟨⟨c, List.mem_cons_self, rfl, hhd⟩, fun entry hentry => ?_⟩
      obtain ⟨c', hc', hrest⟩ := ih htl entry hentry
      exact ⟨c', List.mem_cons_of_mem _ hc', hrest⟩

/-- The entries of a run for a principal are lawful where they say allowed. -/
theorem entries_lawful (hrecords : ∀ program config,
      (deps.execute program config).EachCall (RecordsCall deps)) {net : Network} {engine : Engine}
    (hds : engine.downstreams.WellFormed net) {principal : String} {req : ExecuteRequest}
    {program : deps.CompiledProgram} {traceId : String} {evs : List (Event Op Res)}
    {run : Engine.RunResult}
    (h : Runs (engine.runThread deps (engine.preparedOf deps principal req program traceId)) evs
      run) :
    ∀ entry ∈ run.entries, entry.decision = .allowed → Lawful deps engine principal entry := by
  obtain ⟨calls, e, last, htranscribed⟩ := runThread_runs h
  have hallowed : ∀ t ∈ engine.allowedSchemas principal, t ∈ engine.downstreams.tools :=
    fun t ht => (Engine.mem_allowedSchemas.mp ht).1
  obtain ⟨entries, hlog, hdispatched⟩ := htranscribed.recording.calls.each (fun c hok hsame => by
    obtain ⟨entry, hlog, hd⟩ : ∃ entry, c.next.log = c.host.log ++ [entry] ∧
        Dispatched deps c.host c entry :=
      hok.dispatched (by rw [hsame.downstreams]; exact hds)
        (by rw [hsame.downstreams, hsame.allowed]; exact hallowed)
    exact ⟨entry, hlog, hd.same hsame⟩)
  -- the host was new, so the log is the log of this run
  have hlast : last.log = entries := by rw [hlog]; rfl
  rw [htranscribed.entries, hlast]
  intro entry hentry hdecision
  obtain ⟨c, hc, hrecord, hd⟩ := mem_zipEntries hdispatched entry hentry
  obtain ⟨htool, hargs⟩ := htranscribed.recording.records (hrecords _ _) c hc
  obtain ⟨tool, v, hpasses⟩ := hd.allowed_iff.mp hdecision
  obtain ⟨hmem, hname⟩ := hpasses.mem
  refine ⟨c.step.args, tool, v, ?_, ?_, hpasses.serialises, hmem, hpasses.valid, ?_⟩
  · rw [hrecord, htool, hname]
  · rw [hrecord, hargs]
  · rw [hname]
    exact hpasses.allowed

end Entries

/-! ### Beside the traces -/

section Beside

variable {deps : Deps} {P : Protocol} {engine : Engine} {i pid : Nat} {w : World}

/-- Before the run an execute writes beside the traces, which any protocol that
admits such files allows. -/
theorem Protocol.safe_prepare (hstore : engine.store.Separate)
    (hbeside : ∀ p bytes V, p.parent ≠ engine.store.traces → P.CanPublish i p bytes V)
    (principal : String) (req : ExecuteRequest) (hv : P.Valid w) :
    P.Safe i pid (fun _ _ => True) (engine.prepare deps principal req) w := by
  unfold Engine.prepare
  dsimp only
  split
  case h_1 => exact fun _ r => nomatch r
  case h_2 => exact fun _ _ _ => trivial
  case h_3 program _ =>
    obtain ⟨p, hp⟩ := keyPath_encode engine.store.programs (deps.programHash program) "lua"
    obtain ⟨q, hq⟩ := keyPath_encode engine.store.descriptions
      (build deps (engine.allowedSchemas principal)).hash "txt"
    have hprograms : p.parent ≠ engine.store.traces := by
      rw [parent_of_keyPath hp]
      exact hstore.traces_programs.symm
    have hdescriptions : q.parent ≠ engine.store.traces := by
      rw [parent_of_keyPath hq]
      exact hstore.traces_descriptions.symm
    simp only [TraceStore.putProgram, TraceStore.putDescription, hp, hq]
    refine Interleave.Safe.bind Keeps.refl hv (safe_putContentAddressed
      (not_isTmp_of_keyPath hp) (hbeside _ _ _ hprograms)) ?_
    intro r w₁ hv₁ _
    cases Engine.ignoreConflict r with
    | error e => exact fun _ _ _ => trivial
    | ok u =>
      refine Interleave.Safe.bind Keeps.refl hv₁ (safe_putContentAddressed
        (not_isTmp_of_keyPath hq) (hbeside _ _ _ hdescriptions)) ?_
      rintro (e | u) w₂ hv₂ -
      · exact fun _ _ _ => trivial
      · refine Safe.quiet trivial ?_
        exact fun _ _ _ _ _ _ => fun _ _ _ => trivial

/-- The run itself changes nothing, under any protocol. -/
theorem Protocol.safe_run (engine : Engine) (prepared : Engine.Prepared deps) (w : World) :
    P.Safe i pid (fun run _ => ∃ evs, Runs (engine.runThread deps prepared) evs run)
      (engine.runThread deps prepared) w := by
  refine Interleave.Safe.of_uses ?_ Does.refl (runThread_uses engine prepared) w
  rintro o s r s' ho ⟨-, hs⟩
  exact World.sem_quiet ho.quiet hs

end Beside

/-! ### The source of a trace -/

section Source

variable {deps : Deps} {HeaderValue : Type}

/-- The request a trace comes from, at the gateway that served it. -/
structure ComesFrom (toStr : HeaderValue → Option String)
    (decode : ByteArray → Option McpRequest) (d : Deployment deps)
    (request : HttpRequest HeaderValue) (t : Trace) : Prop where
  /-- The principal is the one whose token the request bears. -/
  principal : TokenBorne d toStr request t.header.principal
  /-- Program, session and request are those of the body. -/
  asked : ∃ a program, AsksFor decode request.body a ∧ t.header.session = a.session ∧
    t.header.request = a.request ∧
    compileProgram deps (d.engine.descriptionFor deps t.header.principal).prelude a.program =
      .ok program ∧
    t.header.programHash = Hex.encode (deps.programHash program).val
  /-- The tools described and the rules enforced are those of the principal at
  that gateway. -/
  described : t.header.descriptionHash =
    Hex.encode (d.engine.descriptionFor deps t.header.principal).hash.val
  policy : t.header.gatewayPolicyHash = Hex.encode (d.engine.policy.policyHash deps).val
  lawful : ∀ entry ∈ t.entries, entry.decision = .allowed →
    Lawful deps d.engine t.header.principal entry
  signed : t.sign deps d.engine.signingKey = t

theorem comesFrom_run (hrecords : ∀ program config,
      (deps.execute program config).EachCall (RecordsCall deps))
    {toStr : HeaderValue → Option String} {decode : ByteArray → Option McpRequest}
    {d : Deployment deps} {request : HttpRequest HeaderValue} {p : String} {a : Server.ExecuteArgs}
    (hborne : TokenBorne d toStr request p) (hasks : AsksFor decode request.body a)
    {program : deps.CompiledProgram} {traceId : String}
    (hcompiled : compileProgram deps (build deps (d.engine.allowedSchemas p)).prelude a.program =
      .ok program) {evs : List (Event Op Res)} {run : Engine.RunResult}
    (hrun : Runs (d.engine.runThread deps (d.engine.preparedOf deps p
      ⟨a.program, a.session, a.request⟩ program traceId)) evs run) :
    ComesFrom toStr decode d request (d.engine.signedTrace deps (d.engine.preparedOf deps p
      ⟨a.program, a.session, a.request⟩ program traceId) run) where
  principal := hborne
  asked := ⟨a, program, hasks, rfl, rfl, hcompiled, rfl⟩
  described := rfl
  policy := rfl
  lawful := entries_lawful hrecords d.ready.2.2 hrun
  signed := Trace.sign_sign _ _

end Source

/-! ### The protocol -/

section Threads

variable (deps : Deps) {HeaderValue : Type} (toStr : HeaderValue → Option String)
variable (decode : ByteArray → Option McpRequest) (gateways : Set (Deployment deps))
variable (inbox : Set (HttpRequest HeaderValue))

/-- A trace that comes from one of the requests. -/
def Attributed (t : Trace) : Prop :=
  ∃ d ∈ gateways, ∃ request ∈ inbox, ComesFrom toStr decode d request t

/-- The invariant of the files under `dir`. -/
def TracesAttributed (dir : String) (V : Files) : Prop :=
  ∀ p bytes, p.parent = dir → V p = some bytes →
    ∃ t, Attributed deps toStr decode gateways inbox t ∧ bytes = t.toVec deps ∧
      keyPath dir t.header.traceId "json" = .ok p

/-- The threads keep the invariant, and need nothing of each other. -/
def attribution (dir : String) : Protocol where
  toSetting := .crashing (fun _ => True) fun _ _ _ => True
  inv := TracesAttributed deps toStr decode gateways inbox dir
  rely _ _ _ := True
  guar _ _ _ := True
  rely_refl _ _ := trivial
  rely_trans _ := fun _ _ => trivial
  guar_refl _ _ := trivial
  compat _ _ _ _ _ _ _ := trivial

variable {deps toStr decode gateways inbox} {dir : String} {i pid : Nat} {w : World}

/-- A file of another directory. -/
theorem publish_beside {p : Path} (hp : p.parent ≠ dir) (bytes : ByteArray) (V : Files) :
    (attribution deps toStr decode gateways inbox dir).CanPublish i p bytes V := by
  intro w _ hv _ _ _
  refine ⟨fun q content hq hcontent => ?_, trivial⟩
  have hne : q ≠ p := fun h => hp (by rw [← h, hq])
  rw [Function.update_of_ne hne] at hcontent
  exact hv.inv q content hq hcontent

theorem publish_attributed {p : Path} {t : Trace}
    (ht : Attributed deps toStr decode gateways inbox t)
    (hp : keyPath dir t.header.traceId "json" = .ok p) (V : Files) :
    (attribution deps toStr decode gateways inbox dir).CanPublish i p (t.toVec deps) V := by
  intro w _ hv _ _ _
  refine ⟨fun q content hq hcontent => ?_, trivial⟩
  by_cases hqp : q = p
  · subst hqp
    rw [Function.update_self] at hcontent
    exact ⟨t, ht, (Option.some.inj hcontent).symm, hp⟩
  · rw [Function.update_of_ne hqp] at hcontent
    exact hv.inv q content hq hcontent

/-! ### One request -/

section Request

variable {engine : Engine}

theorem attribution_prepare (hstore : engine.store.Separate) (principal : String)
    (req : ExecuteRequest)
    (hv : (attribution deps toStr decode gateways inbox engine.store.traces).Valid w) :
    (attribution deps toStr decode gateways inbox engine.store.traces).Safe i pid
      (fun _ _ => True) (engine.prepare deps principal req) w :=
  Protocol.safe_prepare hstore (fun _ bytes V hp => publish_beside hp bytes V) principal req hv

theorem attribution_finish {prepared : Engine.Prepared deps} {run : Engine.RunResult}
    (ht : Attributed deps toStr decode gateways inbox (engine.signedTrace deps prepared run))
    (hv : (attribution deps toStr decode gateways inbox engine.store.traces).Valid w) :
    (attribution deps toStr decode gateways inbox engine.store.traces).Safe i pid
      (fun _ _ => True) (engine.finish deps prepared run) w := by
  have hput : (attribution deps toStr decode gateways inbox engine.store.traces).Safe i pid
      (fun _ _ => True)
      (engine.store.putTrace deps (engine.signedTrace deps prepared run)) w := by
    rcases hp : keyPath engine.store.traces (engine.signedTrace deps prepared run).header.traceId
      "json" with e | p
    · simp only [TraceStore.putTrace, hp]
      exact fun _ _ _ => trivial
    · exact Interleave.Safe.weaken (Protocol.safe_putTrace hp (publish_attributed ht hp _))
        fun _ _ _ _ => trivial
  refine Interleave.Safe.bind Protocol.Keeps.refl hv hput fun r w₁ _ _ => ?_
  -- answering performs nothing but a panic
  unfold Engine.respond
  split
  · exact fun _ _ _ => trivial
  · split
    · exact fun _ _ _ => trivial
    · split
      · exact fun _ _ _ => trivial
      · exact fun _ r => Empty.elim r

end Request

variable {errorText : String → Json → String}
variable {reply : Option (Except ErrorData McpResult) → HttpResponse}

/-- **One request** keeps the traces attributed. -/
theorem attribution_serve (hrecords : ∀ program config,
      (deps.execute program config).EachCall (RecordsCall deps))
    {d : Deployment deps} (hd : d ∈ gateways) (hstore : d.engine.store.Separate)
    {request : HttpRequest HeaderValue} (hrequest : request ∈ inbox)
    (htold : Told deps d.env d.config toStr request)
    (hv : (attribution deps toStr decode gateways inbox d.engine.store.traces).Valid w) :
    (attribution deps toStr decode gateways inbox d.engine.store.traces).Safe i pid
      (fun _ _ => True)
      (Server.serve errorText toStr decode reply deps d.tokens d.engine request) w := by
  have hcases : (Server.serve errorText toStr decode reply deps d.tokens d.engine request).Uses
        (fun o => ∃ m, o = .panic m) ∨
      ∃ p a, authenticated deps toStr d.tokens request = some p ∧ AsksFor decode request.body a :=
    serve_cases request
  rcases hcases with hquiet | ⟨p, a, hauth, hasks⟩
  · refine Interleave.Safe.weaken (Interleave.Safe.of_uses ?_ Protocol.Does.refl hquiet w)
      fun _ _ _ _ => trivial
    rintro _ s r s' ⟨m, rfl⟩ -
    exact nomatch r
  · have hborne := (tokenBorne_iff d htold).mpr hauth
    have hexecute : (attribution deps toStr decode gateways inbox d.engine.store.traces).Safe i pid
        (fun _ _ => True) (d.engine.execute deps p ⟨a.program, a.session, a.request⟩) w := by
      refine Interleave.Safe.andThen Protocol.Keeps.refl hv
        (Interleave.Safe.runs (attribution_prepare hstore p _ hv)) ?_ fun _ _ _ _ _ _ _ => trivial
      rintro prepared w₁ hv₁ ⟨⟨evs, hprepare⟩, -⟩
      obtain ⟨program, traceId, hcompiled, rfl⟩ := prepare_ok hprepare
      refine Interleave.Safe.bind Protocol.Keeps.refl hv₁
        (Protocol.safe_run d.engine _ w₁) ?_
      rintro run w₂ hv₂ ⟨evs', hrun⟩
      exact attribution_finish ⟨d, hd, request, hrequest,
        comesFrom_run hrecords hborne hasks hcompiled hrun⟩ hv₂
    rw [serve_execute hauth hasks, Server.execute, bind_assoc]
    exact Interleave.Safe.bind Protocol.Keeps.refl hv hexecute fun _ _ _ _ _ _ _ => trivial

end Threads

/-! ### Every interleaving of requests -/

section Serves

variable {deps : Deps} {HeaderValue : Type} (errorText : String → Json → String)
variable (toStr : HeaderValue → Option String) (decode : ByteArray → Option McpRequest)
variable (reply : Option (Except ErrorData McpResult) → HttpResponse)
variable (gateways : Set (Deployment deps)) (inbox : Set (HttpRequest HeaderValue))

/-- The gateways serve the requests of the inbox, each as often as it comes. -/
def serves : System Op Res World Nat HttpResponse :=
  (Setting.crashing (fun _ => True) fun _ _ _ => True).system fun _ _ p _ =>
    ∃ d ∈ gateways, ∃ request ∈ inbox,
      p = Server.serve errorText toStr decode reply deps d.tokens d.engine request

variable {errorText toStr decode reply gateways inbox} {dir : String}

def serveRules (hrecords : ∀ program config,
      (deps.execute program config).EachCall (RecordsCall deps))
    (hshared : ∀ d ∈ gateways, d.config.store.dir = dir)
    (htold : ∀ d ∈ gateways, ∀ request ∈ inbox, Told deps d.env d.config toStr request) :
    Rules (serves errorText toStr decode reply gateways inbox) :=
  (attribution deps toStr decode gateways inbox (TraceStore.under dir).traces).rules _
    (fun _ _ _ _ => True) (by
      rintro i pid p w ⟨d, hd, request, hrequest, rfl⟩ hv
      have hstore : d.engine.store = .under dir := by rw [d.store, hshared d hd]
      have hseparate : d.engine.store.Separate := by
        rw [hstore]
        exact TraceStore.under_separate dir
      rw [← hstore] at hv ⊢
      exact attribution_serve hrecords hd hseparate hrequest (htold d hd request hrequest) hv)

/-- **Every stored trace has its source.**  In every state that gateways on
one store can reach from an empty one, through any interleaving of any
requests, faults and crashes: a file under `traces` is a signed trace of its
name, and it comes from a request that bears the token of its principal and
asked for what its header says. -/
theorem traces_attributed (codec : RecordCodec deps) (hrecords : ∀ program config,
      (deps.execute program config).EachCall (RecordsCall deps))
    (hshared : ∀ d ∈ gateways, d.config.store.dir = dir)
    (htold : ∀ d ∈ gateways, ∀ request ∈ inbox, Told deps d.env d.config toStr request)
    {x : Pool Op Res Nat HttpResponse × World}
    (h : Steps (serves errorText toStr decode reply gateways inbox) (Pool.empty, World.empty) x)
    {p : Path} {bytes : ByteArray} (hp : p.parent = (TraceStore.under dir).traces)
    (hname : ¬ p.IsTmp) (hfile : x.2.files p = some bytes) :
    ∃ t, Trace.fromSlice deps bytes = some t ∧
      keyPath (TraceStore.under dir).traces t.header.traceId "json" = .ok p ∧
      Attributed deps toStr decode gateways inbox t := by
  have hvalid : (attribution deps toStr decode gateways inbox
      (TraceStore.under dir).traces).Valid World.empty := by
    refine ⟨fun _ _ _ => rfl, fun hu => hu.elim, ?_⟩
    rw [World.visible_empty]
    intro p bytes _ hnone
    cases hnone
  have hx : (serveRules hrecords hshared htold).Holds x := Rules.Holds.steps (.init hvalid) h
  rw [← World.visible_of_not_tmp hname] at hfile
  obtain ⟨t, ht, rfl, hk⟩ := hx.valid.inv p bytes hp hfile
  exact ⟨t, t.fromSlice_toVec codec, hk, ht⟩

end Serves

/-! ### At the instance -/

namespace Reference

/-- `alice` asks in an empty store, and the trace is there. -/
theorem serve_files : ∃ x, Steps (serves (fun _ _ => "") headerText askBody statusOnly
      {deployment} {agentRequest}) (Pool.empty, World.empty) x ∧
    ∃ p bytes, keyPath engine.store.traces "0a" "json" = .ok p ∧ x.2.files p = some bytes := by
  have hstore : engine.store.Separate := TraceStore.under_separate config.store.dir
  have hid : validKey "0a" = true := by decide
  obtain ⟨response, w, hexec, hfiled⟩ : ∃ response w,
      Exec (World.sem True 0 1) (engine.execute reference "alice" ask) World.empty (.ok response) w ∧
        Archived engine askPrepared
          ((build reference (engine.allowedSchemas "alice")).prelude ++ ask.program)
          (build reference (engine.allowedSchemas "alice")).text
          ((engine.traceOf reference askPrepared askRun).sign reference key) w :=
    execute_alone hstore ask_compiles hid rfl ask_runs ask_output fun _ => rfl
  obtain ⟨p, hp, hfile⟩ := hfiled.trace
  have hserve : ∃ answer, Exec (World.sem True 0 1) (Server.serve (fun _ _ => "") headerText askBody
      statusOnly reference aliceDigests engine agentRequest) World.empty answer w := by
    rw [serve_execute alice_passes (ask_asks _)]
    have hanswer : Exec (World.sem True 0 1) (Server.execute reference engine "alice"
        ⟨"return s.t{}", none, some "ask"⟩) World.empty (Server.answer (.ok response)) w :=
      exec_bind_iff.mpr ⟨_, w, hexec, Exec.ret _ _⟩
    exact ⟨_, exec_bind_iff.mpr ⟨_, w, hanswer, Exec.ret _ _⟩⟩
  obtain ⟨answer, hserve⟩ := hserve
  have hrun : Exec ((serves (fun _ _ => "") headerText askBody statusOnly {deployment}
      {agentRequest}).sem 0 1) (Server.serve (fun _ _ => "") headerText askBody statusOnly reference
        aliceDigests engine agentRequest) World.empty answer w :=
    hserve.mono fun _ _ _ _ h => ⟨trivial, h⟩
  have hspawn : Step (serves (fun _ _ => "") headerText askBody statusOnly {deployment}
      {agentRequest}) (Pool.empty, World.empty) _ :=
    Step.spawn 0 1 (Server.serve (fun _ _ => "") headerText askBody statusOnly reference
      aliceDigests engine agentRequest) rfl ⟨deployment, rfl, agentRequest, rfl, rfl⟩
  exact ⟨_, Relation.ReflTransGen.head hspawn (Steps.exec hrun Pool.empty), p, _, hp, hfile⟩

end Reference

open Reference in
theorem traces_attributed_reference : ∃ x p bytes t,
    Steps (serves (fun _ _ => "") headerText askBody statusOnly {deployment} {agentRequest})
      (Pool.empty, World.empty) x ∧ x.2.files p = some bytes ∧
    Trace.fromSlice reference bytes = some t ∧
    Attributed reference headerText askBody {deployment} {agentRequest} t := by
  obtain ⟨x, hx, p, bytes, hp, hfile⟩ := serve_files
  have hshared : ∀ d ∈ ({deployment} : Set (Deployment reference)),
      d.config.store.dir = config.store.dir := by
    rintro _ rfl
    rfl
  have htold : ∀ d ∈ ({deployment} : Set (Deployment reference)), ∀ request ∈ ({agentRequest} :
      Set (HttpRequest (List UInt8))), Told reference d.env d.config headerText request := by
    rintro _ rfl _ rfl
    exact alice_told
  obtain ⟨t, hread, -, ht⟩ := traces_attributed codec
    (fun program config => coreVm.records program config) hshared htold hx (parent_of_keyPath hp)
    (not_isTmp_of_keyPath hp) hfile
  exact ⟨x, p, bytes, t, hx, hfile, hread, ht⟩

end ProvenoGateway
