/-
ProvenoGateway/Authority.lean

From the token of an HTTP request to what a downstream is sent.

A `Deployment` is a configuration, and the engine and the tokens that start-up
made of it.  Whatever a request makes the gateway send, the token it bears is
that of a principal whose rules admit it (`authority`): the layers between
them (bearer, handler, `prepare`, run, host) hand the principal on and send
nothing of their own.
-/
import ProvenoGateway.Handler
import ProvenoGateway.Lifecycle
import ProvenoGateway.Startup

namespace ProvenoGateway

open Program

/-- `start`, up to the listener. -/
def Server.start (deps : Deps) (env : String → Option String) (net : Network)
    (toml : String → Except String PolicyFile) (config : GatewayConfig) :
    Gateway (Except SetupError (Tokens × Engine)) :=
  match Tokens.resolve deps env config with
  | .error e => pure (.error e)
  | .ok tokens => do
      let engine ← Engine.new env net toml config
      pure (engine.map fun engine => (tokens, engine))

/-- A gateway that has started. -/
structure Deployment (deps : Deps) where
  env : String → Option String
  net : Network
  config : GatewayConfig
  tokens : Tokens
  engine : Engine
  /-- The configuration is one the parser accepts, -/
  parsed : ∃ toml text base, parse toml text base = .ok config
  /-- and start-up succeeded with it. -/
  started : ∃ toml evs, Runs (Server.start deps env net toml config) evs (.ok (tokens, engine))

/-! ### Operations that send nothing -/

/-- An operation that is not a request to a downstream. -/
def Sendless : Op → Prop
  | .toolsCall _ _ => False
  | _ => True

theorem requests_of_sendless {evs : List (Event Op Res)} (h : ∀ e ∈ evs, Sendless e.1) :
    requests evs = [] := by
  rw [requests, List.filterMap_eq_nil_iff]
  rintro ⟨o, r⟩ he
  have ho := h _ he
  cases o with
  | toolsCall client params => exact ho.elim
  | _ => rfl

theorem sendless_op (o : Op) (ho : Sendless o) :
    (Program.op o : Gateway (Res o)).Uses Sendless := ⟨ho, fun _ => trivial⟩

/-- An operation of the store: it sends nothing, and renames to `target`
alone. -/
def Storing (target : Path → Prop) : Op → Prop
  | .toolsCall _ _ => False
  | .rename _ q => target q
  | _ => True

section Storing

variable {target : Path → Prop}

theorem Storing.sendless {o : Op} (h : Storing target o) : Sendless o := by
  cases o with
  | toolsCall client params => exact h
  | _ => trivial

theorem storing_op (o : Op) (ho : Storing target o) :
    (Program.op o : Gateway (Res o)).Uses (Storing target) := ⟨ho, fun _ => trivial⟩

theorem writeSteps_storing (tmp : Path) {path : Path} (h : target path) (bytes : ByteArray) :
    (writeSteps tmp path bytes).Uses (Storing target) := by
  refine Uses.andThen (storing_op (.createNew tmp) trivial) fun _ => ?_
  refine Uses.andThen (storing_op (.writeAll tmp bytes) trivial) fun _ => ?_
  refine Uses.andThen (storing_op (.syncAll tmp) trivial) fun _ => ?_
  exact storing_op (.rename tmp path) h

theorem writeAtomic_storing {path : Path} (h : target path) (bytes : ByteArray) :
    (writeAtomic path bytes).Uses (Storing target) := by
  refine Uses.bind (storing_op .processId trivial) fun pid => ?_
  refine Uses.bind (storing_op .fetchAdd trivial) fun n => ?_
  refine Uses.bind (writeSteps_storing _ h _) ?_
  rintro (e | u)
  · exact ⟨trivial, fun _ => trivial⟩
  · trivial

theorem putContentAddressed_storing {path : Path} (h : target path) (kind key content : String) :
    (putContentAddressed path kind key content).Uses (Storing target) := by
  refine Uses.bind (storing_op (.read path) trivial) ?_
  rintro (e | existing) <;> dsimp only
  · split
    · exact writeAtomic_storing h _
    · trivial
  · split <;> trivial

variable {store : TraceStore}

theorem putTrace_storing (h : ∀ p, p.parent = store.traces → target p) (deps : Deps) (t : Trace) :
    (store.putTrace deps t).Uses (Storing target) := by
  unfold TraceStore.putTrace
  split
  case h_1 => trivial
  case h_2 p hp =>
    refine ⟨trivial, ?_⟩
    rintro (_ | _)
    · exact writeAtomic_storing (h p (parent_of_keyPath hp)) _
    · trivial

theorem putProgram_storing (h : ∀ p, p.parent = store.programs → target p) (key source : String) :
    (store.putProgram key source).Uses (Storing target) := by
  unfold TraceStore.putProgram
  split
  case h_1 => trivial
  case h_2 p hp => exact putContentAddressed_storing (h p (parent_of_keyPath hp)) _ _ _

theorem putDescription_storing (h : ∀ p, p.parent = store.descriptions → target p)
    (key text : String) : (store.putDescription key text).Uses (Storing target) := by
  unfold TraceStore.putDescription
  split
  case h_1 => trivial
  case h_2 p hp => exact putContentAddressed_storing (h p (parent_of_keyPath hp)) _ _ _

theorem putProgram_sendless (store : TraceStore) (key source : String) :
    (store.putProgram key source).Uses Sendless := by
  have h : (store.putProgram key source).Uses (Storing fun _ => True) :=
    putProgram_storing (fun _ _ => trivial) key source
  exact h.mono fun _ => Storing.sendless

theorem putDescription_sendless (store : TraceStore) (key text : String) :
    (store.putDescription key text).Uses Sendless := by
  have h : (store.putDescription key text).Uses (Storing fun _ => True) :=
    putDescription_storing (fun _ _ => trivial) key text
  exact h.mono fun _ => Storing.sendless

end Storing

section Engine

variable {deps : Deps} {engine : Engine} {principal : String} {req : ExecuteRequest}

theorem prepare_storing {target : Path → Prop}
    (hprograms : ∀ p, p.parent = engine.store.programs → target p)
    (hdescriptions : ∀ p, p.parent = engine.store.descriptions → target p) :
    (engine.prepare deps principal req).Uses (Storing target) := by
  unfold Engine.prepare
  dsimp only
  split
  · exact ⟨trivial, fun r => nomatch r⟩
  · trivial
  · refine Uses.bind (putProgram_storing hprograms _ _) fun r => ?_
    split
    · trivial
    · refine Uses.bind (putDescription_storing hdescriptions _ _) fun r => ?_
      split
      · trivial
      · exact ⟨trivial, fun _ => trivial⟩

theorem prepare_sendless : (engine.prepare deps principal req).Uses Sendless := by
  have h : (engine.prepare deps principal req).Uses (Storing fun _ => True) :=
    prepare_storing (fun _ _ => trivial) fun _ _ => trivial
  exact h.mono fun _ => Storing.sendless

theorem respond_storing {target : Path → Prop} {prepared : Engine.Prepared deps} {t : Trace}
    {status : RunStatus} (stored : Except StoreError Unit) :
    (Engine.respond deps prepared t status stored).Uses (Storing target) := by
  unfold Engine.respond
  split
  · trivial
  · split
    · trivial
    · split
      · trivial
      · exact ⟨trivial, fun r => nomatch r⟩

theorem finish_sendless {prepared : Engine.Prepared deps} {run : Engine.RunResult} :
    (engine.finish deps prepared run).Uses Sendless := by
  have h : (engine.finish deps prepared run).Uses (Storing fun _ => True) :=
    Uses.bind (putTrace_storing (fun _ _ => trivial) _ _) fun _ => respond_storing _
  exact h.mono fun _ => Storing.sendless

/-- What is handed to the run thread is made of the request. -/
theorem prepare_ok {evs : List (Event Op Res)} {prepared : Engine.Prepared deps}
    (h : Runs (engine.prepare deps principal req) evs (.ok prepared)) :
    ∃ program traceId, compileProgram deps (build deps (engine.allowedSchemas principal)).prelude
        req.program = .ok program ∧
      prepared = engine.preparedOf deps principal req program traceId := by
  unfold Engine.prepare at h
  dsimp only at h
  split at h
  case h_1 =>
    obtain ⟨r, -⟩ := runs_call_iff.mp h
    exact nomatch r
  case h_2 => cases (runs_ret_iff.mp h).2
  case h_3 program hcompiled =>
    obtain ⟨stored, evs₁, evs₂, rfl, -, h₂⟩ := runs_bind_iff.mp h
    split at h₂
    case h_1 => cases (runs_ret_iff.mp h₂).2
    case h_2 =>
      obtain ⟨stored', evs₃, evs₄, rfl, -, h₄⟩ := runs_bind_iff.mp h₂
      split at h₄
      case h_1 => cases (runs_ret_iff.mp h₄).2
      case h_2 =>
        obtain ⟨id, evs₅, -, h₅⟩ := runs_call_iff.mp h₄
        cases (runs_ret_iff.mp h₅).2
        exact ⟨program, id, hcompiled, rfl⟩

end Engine

/-! ### What a principal may have sent -/

/-- A request that the principal's rules admit: to the client of the tool's
server, which listed the tool, with the arguments that were checked. -/
structure Warranted (deps : Deps) (net : Network) (engine : Engine) (p : String)
    (request : Request) : Prop where
  covered : ∃ tool v arguments, tool ∈ engine.allowedSchemas p ∧
    engine.downstreams.clients.get tool.server = some request.1 ∧
    request.1.server = tool.server ∧ request.1.Lists net tool ∧
    checkArgs deps tool v = .ok () ∧
    engine.policy.check p tool.qualifiedName v = .allow ∧
    requestArguments v = some arguments ∧ request.2 = ⟨tool.name, arguments⟩

section Runs

variable {deps : Deps} {net : Network} {engine : Engine} {principal : String} {req : ExecuteRequest}
variable {evs : List (Event Op Res)}

/-- The calls of a run, as far as the host of the principal is concerned. -/
theorem Recording.warranted {run : VmRun deps.Value deps.Table} {program : deps.CompiledProgram}
    {traceId : String} {calls : List (Recorded deps)} {e : VmEnd deps.Value} {last : GatewayHost}
    (hds : engine.downstreams.WellFormed net)
    (h : Recording deps run (engine.preparedOf deps principal req program traceId).host calls e
      last) : ∀ r ∈ requests (calls.map fun c => c.step.events).flatten,
        Warranted deps net engine principal r := by
  have hallowed : ∀ t ∈ engine.allowedSchemas principal, t ∈ engine.downstreams.tools :=
    fun t ht => (Engine.mem_allowedSchemas.mp ht).1
  obtain ⟨entries, -, hmediated⟩ := h.calls.each (fun c hok hsame => by
    obtain ⟨entry, hlog, hm⟩ : ∃ entry, c.next.log = c.host.log ++ [entry] ∧
        Mediated deps net c.host c entry :=
      hok.mediated (by rw [hsame.downstreams]; exact hds)
        (by rw [hsame.downstreams, hsame.allowed]; exact hallowed)
    exact ⟨entry, hlog, hm.same hsame⟩)
  intro r hr
  rw [requests, List.mem_filterMap] at hr
  obtain ⟨event, hevent, hrequest⟩ := hr
  obtain ⟨events, hevents, hmem⟩ := List.mem_flatten.mp hevent
  obtain ⟨c, hc, rfl⟩ := List.mem_map.mp hevents
  -- the call that sent it was mediated
  obtain ⟨entry, -, hm⟩ := exists_right hmediated (List.mem_map_of_mem hc)
  obtain ⟨tool, v, client, arguments, answer, hpasses, htool, hname, hclient, hserver, hlists,
    harguments, rfl⟩ := hm.sent event hmem
  cases hrequest
  refine ⟨tool, v, arguments, htool, hclient, hserver, hlists, hpasses.valid, ?_, harguments, rfl⟩
  rw [hname]
  exact hpasses.allowed

theorem runThread_warranted {program : deps.CompiledProgram} {traceId : String}
    {run : Engine.RunResult} (hds : engine.downstreams.WellFormed net)
    (h : Runs (engine.runThread deps (engine.preparedOf deps principal req program traceId)) evs
      run) : ∀ r ∈ requests evs, Warranted deps net engine principal r := by
  obtain ⟨calls, e, last, htranscribed⟩ := runThread_runs h
  rw [htranscribed.events]
  exact htranscribed.recording.warranted hds

theorem execute_warranted {outcome : Except ExecuteError ExecuteResponse}
    (hds : engine.downstreams.WellFormed net)
    (h : Runs (engine.execute deps principal req) evs outcome) :
    ∀ r ∈ requests evs, Warranted deps net engine principal r := by
  rcases runs_andThen h with ⟨e, hprepare, -⟩ | ⟨prepared, evs₁, evs₂, rfl, hprepare, h₂⟩
  · rw [requests_of_sendless (hprepare.allowed prepare_sendless)]
    simp
  · obtain ⟨program, traceId, -, rfl⟩ := prepare_ok hprepare
    obtain ⟨run, evs₃, evs₄, rfl, hrun, hfinish⟩ := runs_bind_iff.mp h₂
    rw [requests_append, requests_append,
      requests_of_sendless (hprepare.allowed prepare_sendless),
      requests_of_sendless (hfinish.allowed finish_sendless), List.nil_append, List.append_nil]
    exact runThread_warranted hds hrun

end Runs

/-! ### What a request makes the gateway send -/

section Serve

variable {deps : Deps} {HeaderValue : Type} {toStr : HeaderValue → Option String}

/-- The principals' digests tell the presented token from the others. -/
def Told (deps : Deps) (env : String → Option String) (config : GatewayConfig)
    (toStr : HeaderValue → Option String) (request : HttpRequest HeaderValue) : Prop :=
  ∀ token, Bears toStr request token →
    Set.InjOn (fun s : String => deps.sha256 s.toUTF8)
      (insert token {t | ∃ p, TokenOf env config p t})

/-- The body is a call of `execute` with these arguments. -/
def AsksFor (decode : ByteArray → Option McpRequest) (body : ByteArray)
    (a : Server.ExecuteArgs) : Prop :=
  ∃ params, decode body = some (.callTool params) ∧ params.name = "execute" ∧
    Server.ExecuteArgs.fromJson (.obj (params.arguments.getD [])) = some a

variable {errorText : String → Json → String} {decode : ByteArray → Option McpRequest}
variable {reply : Option (Except ErrorData McpResult) → HttpResponse}

/-- An execute is handed to the engine as the principal's. -/
theorem serve_execute {tokens : Tokens} {engine : Engine} {request : HttpRequest HeaderValue}
    {p : String} {a : Server.ExecuteArgs}
    (hauth : authenticated deps toStr tokens request = some p)
    (hasks : AsksFor decode request.body a) :
    Server.serve errorText toStr decode reply deps tokens engine request =
      Server.execute deps engine p a >>= fun result => pure (reply (some (result.map .called))) := by
  obtain ⟨params, hdecode, hname, hread⟩ := hasks
  rw [Server.serve, requireBearer_some hauth]
  simp only [hdecode, Server.handle, Server.callTool_execute hname hread, bind_assoc, pure_eq,
    ret_bind]

/-- A call that is not an execute performs nothing but a panic. -/
theorem callTool_quiet {engine : Engine} {p : String} {params : CallToolRequestParams}
    (h : params.name = "execute" →
      Server.ExecuteArgs.fromJson (.obj (params.arguments.getD [])) = none) :
    (Server.callTool errorText deps engine (some p) params).Uses (fun o => ∃ m, o = .panic m) := by
  have hinvalid : (params.name = "check" →
      Server.CheckArgs.fromJson (.obj (params.arguments.getD [])) = none) →
      (Server.callTool errorText deps engine (some p) params).Uses
        (fun o => ∃ m, o = .panic m) := by
    intro hcheck
    obtain ⟨message, hcall⟩ : ∃ message, Server.callTool errorText deps engine (some p) params =
        pure (.error (.invalidParams message)) :=
      Server.callTool_invalid errorText h hcheck
    rw [hcall]
    trivial
  rcases hread : Server.CheckArgs.fromJson (.obj (params.arguments.getD [])) with - | a
  · exact hinvalid fun _ => hread
  · by_cases hcheck : params.name = "check"
    · rw [Server.callTool_check hcheck hread, Server.check]
      split
      · trivial
      · trivial
      · exact ⟨⟨_, rfl⟩, fun r => nomatch r⟩
    · exact hinvalid fun hname => absurd hname hcheck

/-- Other requests perform nothing but a panic. -/
theorem handle_quiet {engine : Engine} {p : String} {rpc : McpRequest}
    (h : ∀ params a, rpc = .callTool params → params.name = "execute" →
      Server.ExecuteArgs.fromJson (.obj (params.arguments.getD [])) ≠ some a) :
    (Server.handle errorText deps engine (some p) rpc).Uses (fun o => ∃ m, o = .panic m) := by
  cases rpc with
  | callTool params =>
    refine Uses.bind (callTool_quiet fun hname => ?_) fun _ => trivial
    exact Option.eq_none_iff_forall_ne_some.mpr fun a => h params a rfl hname
  | _ => trivial

/-- A request that is served is somebody's call of `execute`, or performs
nothing but a panic. -/
theorem serve_cases {tokens : Tokens} {engine : Engine} (request : HttpRequest HeaderValue) :
    (Server.serve errorText toStr decode reply deps tokens engine request).Uses
      (fun o => ∃ m, o = .panic m) ∨
    ∃ p a, authenticated deps toStr tokens request = some p ∧ AsksFor decode request.body a := by
  rcases hauth : authenticated deps toStr tokens request with - | p
  · rw [Server.serve, requireBearer_none hauth]
    exact Or.inl trivial
  · by_cases hasks : ∃ a, AsksFor decode request.body a
    · obtain ⟨a, ha⟩ := hasks
      exact Or.inr ⟨p, a, rfl, ha⟩
    · rw [Server.serve, requireBearer_some hauth]
      dsimp only
      split
      · exact Or.inl trivial
      · next rpc hdecode =>
        refine Or.inl (Uses.bind (handle_quiet ?_) fun _ => trivial)
        rintro params a rfl hname hread
        exact hasks ⟨a, params, hdecode, hname, hread⟩

/-- Whatever is sent for a request is sent by an execute. -/
theorem serve_runs {tokens : Tokens} {engine : Engine} {request : HttpRequest HeaderValue}
    {evs : List (Event Op Res)} {response : HttpResponse}
    (h : Runs (Server.serve errorText toStr decode reply deps tokens engine request) evs
      response) :
    requests evs = [] ∨ ∃ p a outcome, authenticated deps toStr tokens request = some p ∧
      AsksFor decode request.body a ∧
      Runs (engine.execute deps p ⟨a.program, a.session, a.request⟩) evs outcome := by
  have hcases : (Server.serve errorText toStr decode reply deps tokens engine request).Uses
        (fun o => ∃ m, o = .panic m) ∨
      ∃ p a, authenticated deps toStr tokens request = some p ∧ AsksFor decode request.body a :=
    serve_cases request
  rcases hcases with hquiet | ⟨p, a, hauth, hasks⟩
  · refine Or.inl (requests_of_sendless fun e he => ?_)
    obtain ⟨message, ho⟩ := h.allowed hquiet e he
    rw [ho]
    trivial
  · rw [serve_execute hauth hasks] at h
    obtain ⟨result, evs₁, evs₂, rfl, hserved, hend⟩ := runs_bind_iff.mp h
    obtain ⟨outcome, evs₃, evs₄, rfl, hexecute, hanswer⟩ := runs_bind_iff.mp hserved
    refine Or.inr ⟨p, a, outcome, hauth, hasks, ?_⟩
    rw [(runs_ret_iff.mp hend).1, (runs_ret_iff.mp hanswer).1, List.append_nil, List.append_nil]
    exact hexecute

/-- Each run of the execute that is asked for is one of the request. -/
theorem serve_answers {tokens : Tokens} {engine : Engine} {request : HttpRequest HeaderValue}
    {p : String} {a : Server.ExecuteArgs}
    (hauth : authenticated deps toStr tokens request = some p)
    (hasks : AsksFor decode request.body a) {evs : List (Event Op Res)}
    {outcome : Except ExecuteError ExecuteResponse}
    (h : Runs (engine.execute deps p ⟨a.program, a.session, a.request⟩) evs outcome) :
    ∃ response, Runs (Server.serve errorText toStr decode reply deps tokens engine request) evs
      response := by
  rw [serve_execute hauth hasks]
  have hanswer : Runs (Server.execute deps engine p a) evs (Server.answer outcome) :=
    runs_bind_iff.mpr ⟨outcome, evs, [], (List.append_nil _).symm, h, Runs.ret _⟩
  exact ⟨_, runs_bind_iff.mpr ⟨_, evs, [], (List.append_nil _).symm, hanswer, Runs.ret _⟩⟩

/-- What start-up leaves. -/
theorem Deployment.ready (d : Deployment deps) :
    Tokens.resolve deps d.env d.config = .ok d.tokens ∧
      (∃ toml evs, Runs (Engine.new d.env d.net toml d.config) evs (.ok d.engine)) ∧
      d.engine.downstreams.WellFormed d.net := by
  obtain ⟨toml, evs, hstart⟩ := d.started
  obtain ⟨parser, text, base, hparse⟩ := d.parsed
  unfold Server.start at hstart
  rcases hresolve : Tokens.resolve deps d.env d.config with e | tokens
  · simp only [hresolve, pure_eq, runs_ret_iff, reduceCtorEq, and_false] at hstart
  · simp only [hresolve] at hstart
    obtain ⟨result, evs₁, evs₂, rfl, hnew, hend⟩ := runs_bind_iff.mp hstart
    rcases result with e | engine
    · cases (runs_ret_iff.mp hend).2
    · cases (runs_ret_iff.mp hend).2
      have hconnect := (Engine.new_started hnew).connected
      exact ⟨rfl, ⟨toml, evs₁, hnew⟩, connect_wellFormed (parse_downstreams hparse) hconnect⟩

theorem openDir_ok {dir : String} {evs : List (Event Op Res)} {store : TraceStore}
    (h : Runs (TraceStore.openDir dir) evs (.ok store)) : store = .under dir := by
  obtain ⟨traces, evs₁, evs₂, -, -, h₂⟩ := runs_bind_iff.mp h
  rcases traces with e | u
  · cases (runs_ret_iff.mp h₂).2
  obtain ⟨programs, evs₃, evs₄, -, -, h₄⟩ := runs_bind_iff.mp h₂
  rcases programs with e | u
  · cases (runs_ret_iff.mp h₄).2
  obtain ⟨descriptions, evs₅, evs₆, -, -, h₆⟩ := runs_bind_iff.mp h₄
  rcases descriptions with e | u
  · cases (runs_ret_iff.mp h₆).2
  · cases (runs_ret_iff.mp h₆).2
    rfl

/-- What an engine is made of. -/
theorem Engine.new_parts {env : String → Option String} {net : Network}
    {toml : String → Except String PolicyFile} {config : GatewayConfig} {engine : Engine}
    {evs : List (Event Op Res)} (h : Runs (Engine.new env net toml config) evs (.ok engine)) :
    Downstreams.connect env net config.downstream = .ok engine.downstreams ∧
      setupKey env config = .ok engine.signingKey ∧ engine.vm = config.vm ∧
      engine.store = .under config.store.dir := by
  obtain ⟨loaded, evs₁, evs₂, -, -, h₂⟩ := runs_bind_iff.mp h
  rcases loaded with e | policy
  · cases (runs_ret_iff.mp h₂).2
  rcases hds : Downstreams.connect env net config.downstream with e | downstreams
  · simp only [hds, pure_eq, runs_ret_iff, reduceCtorEq, and_false] at h₂
  · simp only [hds] at h₂
    obtain ⟨opened, evs₃, evs₄, -, hopen, hend⟩ := runs_bind_iff.mp h₂
    rcases opened with e | store
    · cases (runs_ret_iff.mp hend).2
    · obtain ⟨signingKey, hkey, htokens⟩ := bind_eq_ok.mp (runs_ret_iff.mp hend).2.symm
      obtain ⟨u, -, hprincipals⟩ := bind_eq_ok.mp htokens
      obtain ⟨u', -, hok⟩ := bind_eq_ok.mp hprincipals
      cases hok
      exact ⟨rfl, hkey, rfl, openDir_ok hopen⟩

/-- The engine's store is the one configured. -/
theorem Deployment.store (d : Deployment deps) : d.engine.store = .under d.config.store.dir := by
  obtain ⟨-, ⟨toml, evs, hnew⟩, -⟩ := d.ready
  exact (Engine.new_parts hnew).2.2.2

/-- The request bears the token of the principal. -/
def TokenBorne (d : Deployment deps) (toStr : HeaderValue → Option String)
    (request : HttpRequest HeaderValue) (p : String) : Prop :=
  ∃ token, Bears toStr request token ∧ TokenOf d.env d.config p token

theorem tokenBorne_iff (d : Deployment deps) {request : HttpRequest HeaderValue}
    (htold : Told deps d.env d.config toStr request) {p : String} :
    TokenBorne d toStr request p ↔ authenticated deps toStr d.tokens request = some p :=
  ((authenticates d.ready.1 htold).passes_iff p).symm.trans passesAs_iff

/-- **Nothing is sent without authority.**  What a request makes the gateway
send is admitted by the rules of the principal whose token it bears, and asked
for by its body; a request that bears no principal's token has no effect at
all, and is answered with 401. -/
theorem authority (d : Deployment deps) (errorText : String → Json → String)
    (toStr : HeaderValue → Option String) (decode : ByteArray → Option McpRequest)
    (reply : Option (Except ErrorData McpResult) → HttpResponse)
    {request : HttpRequest HeaderValue} (htold : Told deps d.env d.config toStr request)
    {evs : List (Event Op Res)} {response : HttpResponse}
    (h : Runs (Server.serve errorText toStr decode reply deps d.tokens d.engine request) evs
      response) :
    (requests evs = [] ∨ ∃ p a, TokenBorne d toStr request p ∧ AsksFor decode request.body a ∧
      ∀ r ∈ requests evs, Warranted deps d.net d.engine p r) ∧
    ((∀ p, ¬ TokenBorne d toStr request p) → evs = [] ∧ response = unauthorized) := by
  constructor
  · rcases serve_runs h with hnone | ⟨p, a, outcome, hauth, hasks, hexecute⟩
    · exact Or.inl hnone
    · exact Or.inr ⟨p, a, (tokenBorne_iff d htold).mpr hauth, hasks,
        execute_warranted d.ready.2.2 hexecute⟩
  · intro hnobody
    have hnone : authenticated deps toStr d.tokens request = none := by
      rw [Option.eq_none_iff_forall_ne_some]
      exact fun p hp => hnobody p ((tokenBorne_iff d htold).mpr hp)
    rw [Server.serve, requireBearer_none hnone] at h
    exact runs_ret_iff.mp h

end Serve

/-- In an empty store, what is sent is what the run sends. -/
theorem execute_sends {deps : Deps} {engine : Engine} (hstore : engine.store.Separate)
    {principal : String} {req : ExecuteRequest} {program : deps.CompiledProgram}
    (hcompiled : compileProgram deps (build deps (engine.allowedSchemas principal)).prelude
      req.program = .ok program) {traceId : String} (hid : validKey traceId = true)
    {run : Engine.RunResult} {evs : List (Event Op Res)}
    (hrun : Runs (engine.runThread deps (engine.preparedOf deps principal req program traceId)) evs
      run) (hout : ∀ json, run.outcome.output = some json → ∃ v, deps.fromStr json = .ok v) :
    ∃ evs' response, Runs (engine.execute deps principal req) evs' (.ok response) ∧
      requests evs' = requests evs := by
  let prepared := engine.preparedOf deps principal req program traceId
  obtain ⟨w, hprepare, -, -, htmp, htraces⟩ : ∃ w',
      Exec (World.sem True 0 1) (engine.prepare deps principal req) World.empty (.ok prepared) w' ∧
        _ := prepare_alone True 0 1 hstore hcompiled traceId fun _ => rfl
  obtain ⟨p, hp⟩ : ∃ p, keyPath engine.store.traces prepared.traceId "json" = .ok p :=
    ⟨_, keyPath_eq_ok.mpr ⟨hid, rfl⟩⟩
  obtain ⟨w', hput, -⟩ : ∃ w', World.alone 0 1 (engine.store.putTrace deps
        (engine.signedTrace deps prepared run)) w = some (.ok (), w') ∧
      World.Written 1 p ((engine.signedTrace deps prepared run).toVec deps) w w' :=
    alone_putTrace hp (htraces p (parent_of_keyPath hp)) (htmp _ ⟨1, _, rfl⟩)
  obtain ⟨response, hfinish⟩ : ∃ response, Exec (World.sem True 0 1)
      (engine.finish deps prepared run) w (.ok response) w' := exec_finish hput hout
  obtain ⟨evs₁, h₁⟩ := hprepare.runs
  obtain ⟨evs₂, h₂⟩ := hfinish.runs
  refine ⟨_, response, runs_bind_iff.mpr ⟨_, evs₁, _, rfl, h₁,
    runs_bind_iff.mpr ⟨run, _, evs₂, rfl, hrun, h₂⟩⟩, ?_⟩
  rw [requests_append, requests_append, requests_of_sendless (h₁.allowed prepare_sendless),
    requests_of_sendless (h₂.allowed finish_sendless), List.nil_append, List.append_nil]

/-! ### At the instance -/

namespace Reference

/-- The tokens of `tokenConfig`, the first one for `alice`. -/
def aliceConfig : GatewayConfig :=
  { tokenConfig with principals :=
      tokenConfig.principals.map fun e => (if e.1 = "agent" then "alice" else e.1, e.2) }

def aliceEnv (name : String) : Option String :=
  if name = "KEY" then some (Hex.encode key.val) else tokenEnv name

def aliceRules (_ : String) : Except String PolicyFile :=
  .ok ⟨OrdMap.empty.insert "alice" ⟨["s.t"]⟩, OrdMap.empty⟩

def aliceDigests : Tokens :=
  ⟨OrdMap.ofList [("alice", hash "a b".toUTF8), ("ops", hash "t".toUTF8)]⟩

theorem alice_read : List.Forall₂ (ReadToken aliceEnv) (OrdMap.ofList aliceConfig.principals).entries
    [("alice", "a b"), ("ops", "t")] := .cons ⟨rfl, rfl⟩ (.cons ⟨rfl, rfl⟩ .nil)

theorem alice_resolve : Tokens.resolve reference aliceEnv aliceConfig = .ok aliceDigests := by
  refine Tokens.resolve_eq_ok.mpr ⟨[("alice", "a b"), ("ops", "t")], alice_read, by decide, ?_, rfl⟩
  refine List.nodup_cons.mpr ⟨fun hmem => ?_, List.nodup_singleton _⟩
  exact tokens_apart (List.mem_singleton.mp hmem)

/-- Start-up from what each of its parts makes. -/
theorem starts {deps : Deps} {env : String → Option String} {net : Network}
    {toml : String → Except String PolicyFile} {config : GatewayConfig} {tokens : Tokens}
    {policy : Policy} {ds : Downstreams} {signingKey : SigningKey}
    (hfile : config.policy.file = "/policy.toml") (hdir : config.store.dir = "/store")
    (hresolve : Tokens.resolve deps env config = .ok tokens)
    (hparse : Policy.parse toml "rules" = .ok policy)
    (hconnect : Downstreams.connect env net config.downstream = .ok ds)
    (hkey : setupKey env config = .ok signingKey)
    (htokens : checkTokens env config.principals = .ok ())
    (hcheck : (⟨config.vm, policy, ds, .under "/store", signingKey⟩ : Engine).checkPrincipals
      (config.principals.map Prod.fst) = .ok ()) :
    Runs (Server.start deps env net toml config) startEvents
      (.ok (tokens, ⟨config.vm, policy, ds, .under "/store", signingKey⟩)) := by
  have hpath : Path.ofText "/policy.toml" = ⟨"/", "policy.toml"⟩ := by decide
  have hload : Runs (Policy.load toml config.policy.file)
      [⟨.read ⟨"/", "policy.toml"⟩, .ok (String.toUTF8 "rules")⟩] (.ok policy) := by
    unfold Policy.load
    rw [hfile, hpath, op_bind, runs_call_iff]
    refine ⟨.ok (String.toUTF8 "rules"), [], rfl, ?_⟩
    simp only [Json.fromUTF8_toUTF8, hparse]
    exact Runs.ret _
  have hnew : Runs (Engine.new env net toml config) startEvents
      (.ok ⟨config.vm, policy, ds, .under "/store", signingKey⟩) := by
    apply runs_bind_iff.mpr
    refine ⟨.ok policy, _, _, rfl, hload, ?_⟩
    simp only [hconnect, hdir]
    apply runs_bind_iff.mpr
    refine ⟨.ok (.under "/store"), startEvents.tail, [], rfl, ?_, ?_⟩
    · apply Runs.call
      apply Runs.call
      apply Runs.call
      exact Runs.ret _
    · simp only [hkey, htokens, hcheck, bind, Except.bind]
      exact Runs.ret _
  unfold Server.start
  simp only [hresolve]
  exact runs_bind_iff.mpr ⟨_, startEvents, [], rfl, hnew, Runs.ret _⟩

theorem key_read {env : String → Option String} {config : GatewayConfig}
    (h : env config.server.signingKey.envName = some (Hex.encode key.val)) :
    setupKey env config = .ok key := by
  have hdecode : Hex.decodeToSlice 32 (Hex.encode key.val) = some key :=
    Hex.decodeToSlice_encode key
  simp [setupKey, Secret.resolve, h, signingKeyFromHex, hdecode, Except.mapError, bind, Except.bind]

def deployment : Deployment reference where
  env := aliceEnv
  net := network objectSchema
  config := aliceConfig
  tokens := aliceDigests
  engine := engine
  parsed := ⟨fun _ => .ok aliceConfig, "", "", rfl⟩
  started := ⟨aliceRules, startEvents, starts rfl rfl alice_resolve rfl rfl (key_read rfl) rfl rfl⟩

theorem alice_told : Told reference aliceEnv aliceConfig headerText agentRequest := by
  intro token hbears
  have hmem : ∀ t ∈ insert token {t | ∃ p, TokenOf aliceEnv aliceConfig p t},
      t = "a b" ∨ t = "t" := by
    rintro t (rfl | ⟨p, ht⟩)
    · exact Or.inl (agent_bears.mp hbears)
    · have hpair := (tokenOf_iff alice_read).mp ht
      simp only [List.mem_cons, Prod.mk.injEq, List.not_mem_nil, or_false] at hpair
      exact hpair.imp And.right And.right
  intro s hs t ht heq
  rcases hmem s hs with rfl | rfl <;> rcases hmem t ht with rfl | rfl
  · rfl
  · exact absurd heq tokens_apart
  · exact absurd heq.symm tokens_apart
  · rfl

/-- Every body is a call of `execute` with `ask`. -/
def askBody (_ : ByteArray) : Option McpRequest := some (.callTool Server.askParams)

theorem ask_asks (body : ByteArray) :
    AsksFor askBody body ⟨"return s.t{}", none, some "ask"⟩ := by
  refine ⟨Server.askParams, rfl, rfl, (Server.executeArgs_iff (by simp [Server.askParams])).mpr ?_⟩
  refine ⟨?_, rfl, rfl, rfl⟩
  simp [Server.askParams]

/-- The execute of `ask`. -/
theorem ask_sends : ∃ evs response, Runs (engine.execute reference "alice" ask) evs (.ok response) ∧
    requests evs = [askRequest] :=
  execute_sends (TraceStore.under_separate config.store.dir) ask_compiles
    (show validKey "0a" = true by decide) ask_runs ask_output

theorem alice_passes :
    authenticated reference headerText aliceDigests agentRequest = some "alice" := by
  refine (tokenBorne_iff deployment alice_told).mp ⟨"a b", agent_bears.mpr rfl, ?_⟩
  exact (tokenOf_iff alice_read).mpr List.mem_cons_self

/-- What is sent back says only whether there is a result. -/
def statusOnly (result : Option (Except ErrorData McpResult)) : HttpResponse :=
  ⟨if result.isSome then 200 else 400, [], ByteArray.empty⟩

end Reference

open Reference in
/-- `alice` asks, and a request goes out. -/
theorem authority_reference : ∃ evs response,
    Runs (Server.serve (fun _ _ => "") headerText askBody statusOnly reference aliceDigests engine
      agentRequest) evs response ∧ requests evs = [askRequest] ∧
    ∃ p a, TokenBorne deployment headerText agentRequest p ∧ AsksFor askBody agentRequest.body a ∧
      Warranted reference (network objectSchema) engine p askRequest := by
  obtain ⟨evs, outcome, hexecute, hsent⟩ := ask_sends
  obtain ⟨response, hserve⟩ : ∃ response, Runs (Server.serve (fun _ _ => "") headerText askBody
      statusOnly reference aliceDigests engine agentRequest) evs response :=
    serve_answers alice_passes (ask_asks _) hexecute
  obtain ⟨hnone | ⟨p, a, hborne, hasks, hwarranted⟩, -⟩ :=
    authority deployment (fun _ _ => "") headerText askBody statusOnly alice_told hserve
  · rw [hsent] at hnone
    cases hnone
  · refine ⟨evs, response, hserve, hsent, p, a, hborne, hasks, hwarranted _ ?_⟩
    rw [hsent]
    exact List.mem_cons_self

end ProvenoGateway
