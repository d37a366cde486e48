/-
ProvenoGateway/Credentials.lean

Where the credentials of the downstreams go.

Two deployments of one configuration are run side by side; the environments
may hold other values for the downstream credentials.  The engines that
start-up makes of them differ in the launch of their clients, and a client is
looked up by name and handed to the operation, nothing else.  So whatever one
deployment can do, the other one can, with the same operations on the same
files and the same answers, except that its requests go out under its own
credentials (`credentials_apart`).
-/
import ProvenoGateway.Attribution
import ProvenoGateway.Linked

namespace ProvenoGateway

open Program Interleave

/-! ### Connections under other credentials -/

/-- The same program with the same arguments, or the same URL. -/
inductive Launch.Alike : Launch → Launch → Prop
  | stdio (program : String) (args : List String) (passed given given' : List (String × String)) :
      given'.map Prod.fst = given.map Prod.fst →
      Alike (.stdio program args (passed ++ given)) (.stdio program args (passed ++ given'))
  | http (url : String) (token token' : Option String) : Alike (.http url token) (.http url token')

structure Client.Alike (client client' : Client) : Prop where
  server : client'.server = client.server
  launch : client.launch.Alike client'.launch

/-- The same tools, and clients of the same names. -/
structure Downstreams.Alike (ds ds' : Downstreams) : Prop where
  tools : ds'.tools = ds.tools
  clients : ∀ name, Option.Rel Client.Alike (ds.clients.get name) (ds'.clients.get name)

/-- The events of the two runs: the same ones, or requests that differ in the
credential they go out under and are answered alike. -/
inductive Recredentialed : Event Op Res → Event Op Res → Prop
  | same (o : Op) (r : Res o) : Sendless o → Recredentialed ⟨o, r⟩ ⟨o, r⟩
  | sent (client client' : Client) (params : CallToolRequestParams)
      (r : Except String CallToolResult) : client.Alike client' →
      Recredentialed ⟨.toolsCall client params, r⟩ ⟨.toolsCall client' params, r⟩

theorem recredentialed_sendless {α : Type} {p : Gateway α} (hp : p.Uses Sendless) :
    p.Linked Recredentialed Eq p := Linked.refl Recredentialed.same hp

theorem toolsCall_linked {client client' : Client} (h : client.Alike client')
    (params : CallToolRequestParams) {α : Type} (f : Except String CallToolResult → Gateway α)
    (hf : ∀ r, (f r).Uses Sendless) :
    (toolsCall client params >>= f).Linked Recredentialed Eq (toolsCall client' params >>= f) :=
  @Linked.call _ _ Res Res _ _ _ _ (.toolsCall client params) (.toolsCall client' params) id f f
    (fun r => .sent _ _ _ r h) fun r => recredentialed_sendless (hf r)

theorem Downstreams.Alike.insert {ds ds' : Downstreams} (h : ds.Alike ds') {client client' : Client}
    (hclient : client.Alike client') (name : String) (tools : List ToolSchema) :
    Downstreams.Alike ⟨ds.clients.insert name client, ds.tools ++ tools⟩
      ⟨ds'.clients.insert name client', ds'.tools ++ tools⟩ := by
  refine ⟨by rw [h.tools], fun other => ?_⟩
  by_cases hname : other = name
  · rw [hname, OrdMap.get_insert_self, OrdMap.get_insert_self]
    exact .some hclient
  · rw [OrdMap.get_insert_ne _ hname, OrdMap.get_insert_ne _ hname]
    exact h.clients other

/-! ### A call -/

section Call

variable {deps : Deps} {ds ds' : Downstreams}

theorem Downstreams.Alike.listed (h : ds.Alike ds') (server : String) (listed : Bool) :
    Option.Rel Client.Alike ((ds.clients.get server).filter fun _ => listed)
      ((ds'.clients.get server).filter fun _ => listed) := by
  have hclient := h.clients server
  revert hclient
  generalize ds.clients.get server = client
  generalize ds'.clients.get server = client'
  intro hclient
  cases hclient with
  | none => exact .none
  | some hsame =>
    cases listed with
    | false => exact .none
    | true => exact .some hsame

theorem call_linked (h : ds.Alike ds') (qualified : String) (v : Json) :
    (ds.call deps qualified v).Linked Recredentialed Eq (ds'.call deps qualified v) := by
  unfold Downstreams.call
  split
  · exact .ret _ _ rfl
  · next server tool _ =>
    dsimp only
    rw [h.tools]
    generalize ds.tools.any _ = listed
    have hclient := h.listed server listed
    revert hclient
    generalize (ds.clients.get server).filter _ = client
    generalize (ds'.clients.get server).filter _ = client'
    intro hclient
    cases hclient with
    | none => exact .ret _ _ rfl
    | some hsame =>
      dsimp only
      split
      · exact .ret _ _ rfl
      · exact toolsCall_linked hsame _ _ fun _ => trivial

/-- The hosts are the same but for their connections. -/
def GatewayHost.via (host : GatewayHost) (ds : Downstreams) : GatewayHost :=
  { host with downstreams := ds }

/-- What the calls leave: the same answer, and hosts that are still the same. -/
def SameBut (ds ds' : Downstreams) {α : Type} (x x' : α × GatewayHost) : Prop :=
  x.2.downstreams = ds ∧ x' = (x.1, x.2.via ds')

theorem conclude_via (host : GatewayHost) (name : String) (response : Except String ToolResponse) :
    SameBut host.downstreams ds' (host.conclude deps name response)
      ((host.via ds').conclude deps name response) := by
  unfold GatewayHost.conclude
  split
  · exact ⟨rfl, rfl⟩
  · exact ⟨rfl, rfl⟩

/-- **One call**: the stages before the dispatch do not look at the clients. -/
theorem callTool_linked {host : GatewayHost} (h : host.downstreams.Alike ds') (name : String)
    (args : deps.Table) :
    (host.callTool deps name args).Linked Recredentialed (SameBut host.downstreams ds')
      ((host.via ds').callTool deps name args) := by
  have hrefused : ∀ (decision : CallDecision) (message : String),
      SameBut host.downstreams ds'
        (GatewayHost.refuse { host with attestation := none } decision message :
          Except String deps.Table × GatewayHost)
        (GatewayHost.refuse { host.via ds' with attestation := none } decision message) :=
    fun _ _ => ⟨rfl, rfl⟩
  unfold GatewayHost.callTool
  dsimp only [GatewayHost.via] at hrefused ⊢
  split
  · exact .ret _ _ (hrefused _ _)
  · split
    · exact .ret _ _ (hrefused _ _)
    · split
      · exact .ret _ _ (hrefused _ _)
      · split
        · exact .ret _ _ (hrefused _ _)
        · apply Linked.bind (call_linked h _ _)
          rintro response _ rfl
          exact .ret _ _ (conclude_via { host with attestation := none } _ _)

/-- **A run**: by induction on its calls. -/
theorem drive_linked (run : VmRun deps.Value deps.Table) {host : GatewayHost}
    (h : host.downstreams.Alike ds') (records : List ToolCallRecord) :
    (drive deps (GatewayHost.interface deps) run host records).Linked Recredentialed
      (fun x x' => x' = (x.1, x.2.1.via ds', x.2.2))
      (drive deps (GatewayHost.interface deps) run (host.via ds') records) := by
  induction run generalizing host records with
  | done e => exact .ret _ _ rfl
  | call name args record next ih =>
    rw [drive_call, drive_call]
    apply Linked.bind (callTool_linked h name args)
    rintro ⟨answer, host₁⟩ _ ⟨hds, rfl⟩
    have hsame : host₁.downstreams = host.downstreams := hds
    have hnext : host₁.downstreams.Alike ds' := by rwa [hsame]
    cases answer with
    | error e => exact ih _ hnext _
    | ok t =>
      -- taking the attestation leaves the connections alone
      have htaken : (GatewayHost.takeAttestation host₁).2.downstreams.Alike ds' := hnext
      exact ih _ htaken _

end Call

/-! ### An execute -/

section Execute

variable {deps : Deps} {engine : Engine} {ds : Downstreams}

/-- The engine with other connections. -/
def Engine.via (engine : Engine) (ds : Downstreams) : Engine := { engine with downstreams := ds }

theorem Engine.eq_via {engine engine' : Engine} (hvm : engine'.vm = engine.vm)
    (hpolicy : engine'.policy = engine.policy) (hstore : engine'.store = engine.store)
    (hkey : engine'.signingKey = engine.signingKey) : engine' = engine.via engine'.downstreams := by
  obtain ⟨vm, policy, downstreams, store, signingKey⟩ := engine'
  obtain rfl : vm = _ := hvm
  obtain rfl : policy = _ := hpolicy
  obtain rfl : store = _ := hstore
  obtain rfl : signingKey = _ := hkey
  rfl

theorem allowedSchemas_via (h : engine.downstreams.Alike ds) (principal : String) :
    (engine.via ds).allowedSchemas principal = engine.allowedSchemas principal := by
  show ds.tools.filter _ = engine.downstreams.tools.filter _
  rw [h.tools]
  rfl

theorem preparedOf_via (h : engine.downstreams.Alike ds) (principal : String)
    (req : ExecuteRequest) (program : deps.CompiledProgram) (traceId : String) :
    (engine.via ds).preparedOf deps principal req program traceId =
      { engine.preparedOf deps principal req program traceId with
        host := (engine.preparedOf deps principal req program traceId).host.via ds } := by
  unfold Engine.preparedOf
  rw [allowedSchemas_via h]
  rfl

/-- What is handed over is the same but for the connections. -/
inductive SamePrepared (engine : Engine) (ds : Downstreams) (principal : String)
    (req : ExecuteRequest) : Except ExecuteError (Engine.Prepared deps) →
    Except ExecuteError (Engine.Prepared deps) → Prop
  | error (e : ExecuteError) : SamePrepared engine ds principal req (.error e) (.error e)
  | ok (program : deps.CompiledProgram) (traceId : String) : SamePrepared engine ds principal req
      (.ok (engine.preparedOf deps principal req program traceId))
      (.ok ((engine.via ds).preparedOf deps principal req program traceId))

theorem prepare_linked (h : engine.downstreams.Alike ds) (principal : String)
    (req : ExecuteRequest) :
    (engine.prepare deps principal req).Linked Recredentialed
      (SamePrepared engine ds principal req) ((engine.via ds).prepare deps principal req) := by
  unfold Engine.prepare
  rw [allowedSchemas_via h]
  dsimp only
  split
  · exact .call _ _ id _ _ (fun r => nomatch r) fun r => nomatch r
  · exact .ret _ _ (.error _)
  · apply Linked.bind (recredentialed_sendless (putProgram_sendless _ _ _))
    rintro stored _ rfl
    split
    · exact .ret _ _ (.error _)
    · apply Linked.bind (recredentialed_sendless (putDescription_sendless _ _ _))
      rintro stored _ rfl
      split
      · exact .ret _ _ (.error _)
      · apply Linked.bind (recredentialed_sendless (sendless_op .uuidNow trivial))
        rintro traceId _ rfl
        exact .ret _ _ (.ok _ traceId)

theorem runThread_linked (h : engine.downstreams.Alike ds) (principal : String)
    (req : ExecuteRequest) (program : deps.CompiledProgram) (traceId : String) :
    (engine.runThread deps (engine.preparedOf deps principal req program traceId)).Linked
      Recredentialed Eq ((engine.via ds).runThread deps
        ((engine.via ds).preparedOf deps principal req program traceId)) := by
  rw [preparedOf_via h]
  have hhost : (engine.preparedOf deps principal req program traceId).host.downstreams.Alike ds := h
  apply Linked.bind (drive_linked _ hhost [])
  rintro ⟨e, host, records⟩ _ rfl
  dsimp only [GatewayHost.via]
  split
  · exact .ret _ _ rfl
  · exact .call _ _ id _ _ (fun r => nomatch r) fun r => nomatch r

/-- Nothing in a trace, and nothing in a response, is made of a connection. -/
theorem finish_via (h : engine.downstreams.Alike ds) (principal : String)
    (req : ExecuteRequest) (program : deps.CompiledProgram) (traceId : String)
    (run : Engine.RunResult) :
    (engine.via ds).finish deps ((engine.via ds).preparedOf deps principal req program traceId)
        run =
      engine.finish deps (engine.preparedOf deps principal req program traceId) run := by
  rw [preparedOf_via h]
  rfl

theorem execute_linked (h : engine.downstreams.Alike ds) (principal : String)
    (req : ExecuteRequest) :
    (engine.execute deps principal req).Linked Recredentialed Eq
      ((engine.via ds).execute deps principal req) := by
  apply Linked.bind (prepare_linked h principal req)
  intro prepared prepared' hsame
  cases hsame with
  | error e => exact .ret _ _ rfl
  | ok program traceId =>
    apply Linked.bind (runThread_linked h principal req program traceId)
    rintro run _ rfl
    rw [finish_via h]
    exact recredentialed_sendless finish_sendless

end Execute

/-! ### A request -/

section Serve

variable {deps : Deps} {HeaderValue : Type} {toStr : HeaderValue → Option String}
variable {errorText : String → Json → String} {decode : ByteArray → Option McpRequest}
variable {reply : Option (Except ErrorData McpResult) → HttpResponse}
variable {engine : Engine} {ds : Downstreams}

theorem descriptionFor_via (h : engine.downstreams.Alike ds) (p : String) :
    (engine.via ds).descriptionFor deps p = engine.descriptionFor deps p := by
  unfold Engine.descriptionFor
  rw [allowedSchemas_via h]

theorem callTool_via (h : engine.downstreams.Alike ds) (authenticated : Option String)
    (params : CallToolRequestParams) :
    (Server.callTool errorText deps engine authenticated params).Linked Recredentialed Eq
      (Server.callTool errorText deps (engine.via ds) authenticated params) := by
  unfold Server.callTool
  split
  · exact .ret _ _ rfl
  · next p _ =>
    split
    · split
      · exact .ret _ _ rfl
      · apply Linked.bind (execute_linked h p _)
        rintro outcome _ rfl
        exact .ret _ _ rfl
    · split
      · split
        · exact .ret _ _ rfl
        · unfold Server.check Engine.check
          rw [descriptionFor_via h]
          split
          · exact .ret _ _ rfl
          · exact .ret _ _ rfl
          · exact .call _ _ id _ _ (fun r => nomatch r) fun r => nomatch r
      · exact .ret _ _ rfl

/-- **A request is served alike.** -/
theorem serve_linked (h : engine.downstreams.Alike ds) (tokens : Tokens)
    (request : HttpRequest HeaderValue) :
    (Server.serve errorText toStr decode reply deps tokens engine request).Linked Recredentialed Eq
      (Server.serve errorText toStr decode reply deps tokens (engine.via ds) request) := by
  rcases hauth : authenticated deps toStr tokens request with - | p
  · rw [Server.serve, Server.serve, requireBearer_none hauth, requireBearer_none hauth]
    exact .ret _ _ rfl
  · rw [Server.serve, Server.serve, requireBearer_some hauth, requireBearer_some hauth]
    dsimp only
    split
    · exact .ret _ _ rfl
    · next rpc _ =>
      have hhandle : (Server.handle errorText deps engine (some p) rpc).Linked Recredentialed Eq
          (Server.handle errorText deps (engine.via ds) (some p) rpc) := by
        cases rpc with
        | callTool params =>
          apply Linked.bind (callTool_via h _ params)
          rintro result _ rfl
          exact .ret _ _ rfl
        | listTools =>
          unfold Server.handle Server.listTools
          simp only [descriptionFor_via h]
          exact .ret _ _ rfl
        | _ => exact .ret _ _ rfl
      apply hhandle.bind
      rintro result _ rfl
      exact .ret _ _ rfl

end Serve

/-! ### Two deployments -/

section Deployments

variable {env env' : String → Option String}

/-- The variables a child process is handed on. -/
def passedOn (env : String → Option String) : List (String × String) :=
  ["PATH", "HOME"].filterMap fun var => (env var).map fun v => (var, v)

/-- What a launch is made of. -/
inductive LaunchOf (env : String → Option String) (credential : Option (String × String)) :
    Transport → Launch → Prop
  | stdio (command program : String) (args : List String) :
      Text.splitWhitespace command = program :: args → LaunchOf env credential (.stdio command)
        (.stdio program args (passedOn env ++ credential.toList))
  | http (url : String) : LaunchOf env credential (.http url) (.http url (credential.map Prod.snd))

theorem launch_parts {config : DownstreamConfig} {launched : Launch}
    (h : launch env config = .ok launched) : ∃ credential : Option (String × String),
      credential.map Prod.fst = config.credential.map Secret.envName ∧
      LaunchOf env credential config.transport launched := by
  obtain ⟨name, transport, credential⟩ := config
  cases credential with
  | none =>
    refine ⟨none, rfl, ?_⟩
    cases transport with
    | stdio command =>
      unfold launch at h
      dsimp only [bind, Except.bind] at h
      split at h
      · cases h
      · next hsplit =>
        cases h
        exact .stdio _ _ _ hsplit
    | http url =>
      cases h
      exact .http _
  | some secret =>
    unfold launch at h
    dsimp only at h
    rcases hvalue : secret.resolve env with ⟨e⟩ | value
    · rw [hvalue] at h
      cases h
    · rw [hvalue] at h
      dsimp only [bind, Except.bind] at h
      refine ⟨some (secret.envName, value), rfl, ?_⟩
      cases transport with
      | stdio command =>
        dsimp only at h
        split at h
        · cases h
        · next hsplit =>
          cases h
          exact .stdio _ _ _ hsplit
      | http url =>
        cases h
        exact .http _

theorem launch_alike {config : DownstreamConfig} {launched launched' : Launch}
    (hpassed : ∀ name ∈ ["PATH", "HOME"], env' name = env name)
    (h : launch env config = .ok launched) (h' : launch env' config = .ok launched') :
    launched.Alike launched' := by
  obtain ⟨credential, hname, hlaunch⟩ := launch_parts h
  obtain ⟨credential', hname', hlaunch'⟩ := launch_parts h'
  have hsame : passedOn env' = passedOn env :=
    List.filterMap_congr fun var hvar => by rw [hpassed var hvar]
  have hnames : credential'.toList.map Prod.fst = credential.toList.map Prod.fst := by
    rw [← Option.toList_map, ← Option.toList_map, hname, hname']
  revert hlaunch hlaunch'
  generalize config.transport = transport
  intro hlaunch hlaunch'
  cases hlaunch with
  | stdio command program args hsplit =>
    cases hlaunch' with
    | stdio _ program' args' hsplit' =>
      rw [hsplit, List.cons.injEq] at hsplit'
      rw [← hsplit'.1, ← hsplit'.2, hsame]
      exact .stdio program args _ _ _ hnames
  | http url =>
    cases hlaunch' with
    | http _ => exact .http url _ _

variable {net net' : Network}

theorem connectAll_alike (hpassed : ∀ name ∈ ["PATH", "HOME"], env' name = env name)
    (hlisted : ∀ client client', Client.Alike client client' →
      net'.listAllTools client' = net.listAllTools client) {configs : List DownstreamConfig}
    {ds ds' out out' : Downstreams} (h : connectAll env net configs ds = .ok out)
    (h' : connectAll env' net' configs ds' = .ok out') (hsame : ds.Alike ds') :
    out.Alike out' := by
  induction configs generalizing ds ds' with
  | nil =>
    cases h
    cases h'
    exact hsame
  | cons config rest ih =>
    obtain ⟨spec, hspec, -, listed, hl, tools, htools, hrest⟩ := connectAll_cons_iff.mp h
    obtain ⟨spec', hspec', -, listed', hl', tools', htools', hrest'⟩ := connectAll_cons_iff.mp h'
    have hclient : Client.Alike ⟨config.name, spec⟩ ⟨config.name, spec'⟩ :=
      ⟨rfl, launch_alike hpassed hspec hspec'⟩
    -- the same tools are listed, and read alike
    rw [hlisted _ _ hclient, hl, Except.ok.injEq] at hl'
    rw [← hl', htools, Except.ok.injEq] at htools'
    rw [← htools'] at hrest'
    exact ih hrest hrest' (hsame.insert hclient config.name tools)

theorem connect_alike (hpassed : ∀ name ∈ ["PATH", "HOME"], env' name = env name)
    (hlisted : ∀ client client', Client.Alike client client' →
      net'.listAllTools client' = net.listAllTools client) {configs : List DownstreamConfig}
    {ds ds' : Downstreams} (h : Downstreams.connect env net configs = .ok ds)
    (h' : Downstreams.connect env' net' configs = .ok ds') : ds.Alike ds' := by
  obtain ⟨all, hall, hds⟩ := bind_eq_ok.mp h
  obtain ⟨all', hall', hds'⟩ := bind_eq_ok.mp h'
  cases hds
  cases hds'
  have hnone : Downstreams.Alike ⟨OrdMap.empty, []⟩ ⟨OrdMap.empty, []⟩ := ⟨rfl, fun _ => .none⟩
  have hsame : all.Alike all' := connectAll_alike hpassed hlisted hall hall' hnone
  exact ⟨congrArg sortTools hsame.tools, hsame.clients⟩

theorem resolve_congr {deps : Deps} {config : GatewayConfig}
    (h : ∀ e ∈ (OrdMap.ofList config.principals).entries,
      env' e.2.token.envName = env e.2.token.envName) :
    Tokens.resolve deps env' config = Tokens.resolve deps env config := by
  have hall : ∀ (l : List (String × PrincipalConfig)) (seen : List (Digest × String))
      (digests : OrdMap String Digest),
      (∀ e ∈ l, env' e.2.token.envName = env e.2.token.envName) →
      Tokens.resolveAll deps env' l seen digests = Tokens.resolveAll deps env l seen digests := by
    intro l
    induction l with
    | nil => exact fun _ _ _ => rfl
    | cons e l ih =>
      intro seen digests hl
      obtain ⟨he, hrest⟩ := List.forall_mem_cons.mp hl
      have hread : e.2.token.resolve env' = e.2.token.resolve env := by
        rw [Secret.resolve, Secret.resolve, he]
      obtain ⟨name, principal⟩ := e
      simp only [Tokens.resolveAll, hread]
      congr 1
      funext token
      split
      · rfl
      · split
        · rfl
        · exact ih _ _ hrest
  unfold Tokens.resolve
  rw [hall _ _ _ h]

variable {deps : Deps}

/-- The deployments differ in the values of the downstream credentials: the
rest of the environment that is read is the same, and the servers list the
same tools under either. -/
structure Deployment.Recredentialed (d d' : Deployment deps) : Prop where
  config : d'.config = d.config
  policy : d'.engine.policy = d.engine.policy
  passed : ∀ name ∈ ["PATH", "HOME"], d'.env name = d.env name
  key : d'.env d.config.server.signingKey.envName = d.env d.config.server.signingKey.envName
  tokens : ∀ e ∈ (OrdMap.ofList d.config.principals).entries,
    d'.env e.2.token.envName = d.env e.2.token.envName
  listed : ∀ client client', Client.Alike client client' →
    d'.net.listAllTools client' = d.net.listAllTools client

/-- The engines differ in their connections. -/
theorem Deployment.Recredentialed.via {d d' : Deployment deps} (h : d.Recredentialed d') :
    d'.tokens = d.tokens ∧ d.engine.downstreams.Alike d'.engine.downstreams ∧
      d'.engine = d.engine.via d'.engine.downstreams := by
  obtain ⟨htokens, ⟨toml, evs, hnew⟩, -⟩ := d.ready
  obtain ⟨htokens', ⟨toml', evs', hnew'⟩, -⟩ := d'.ready
  obtain ⟨hconnect, hkey, hvm, hstore⟩ := Engine.new_parts hnew
  obtain ⟨hconnect', hkey', hvm', hstore'⟩ := Engine.new_parts hnew'
  rw [h.config] at htokens' hconnect' hkey' hvm' hstore'
  refine ⟨?_, connect_alike h.passed h.listed hconnect hconnect', ?_⟩
  · rw [resolve_congr h.tokens, htokens, Except.ok.injEq] at htokens'
    exact htokens'.symm
  · have hsame : setupKey d'.env d.config = setupKey d.env d.config := by
      unfold setupKey Secret.resolve
      rw [h.key]
    rw [hsame, hkey, Except.ok.injEq] at hkey'
    exact Engine.eq_via (hvm'.trans hvm.symm) h.policy (hstore'.trans hstore.symm) hkey'.symm

end Deployments

/-! ### Whole systems -/

section Systems

variable {deps : Deps} {HeaderValue : Type} {toStr : HeaderValue → Option String}
variable {errorText : String → Json → String} {decode : ByteArray → Option McpRequest}
variable {reply : Option (Except ErrorData McpResult) → HttpResponse}

/-- The gateways are followed by others with other connections. -/
theorem serves_follow {gateways gateways' : Set (Deployment deps)}
    {inbox : Set (HttpRequest HeaderValue)}
    (h : ∀ d ∈ gateways, ∃ d' ∈ gateways', d'.tokens = d.tokens ∧
      d.engine.downstreams.Alike d'.engine.downstreams ∧
      d'.engine = d.engine.via d'.engine.downstreams) {w : World}
    {x : Pool Op Res Nat HttpResponse × World}
    (hx : Steps (serves errorText toStr decode reply gateways inbox) (Pool.empty, w) x) :
    ∃ pool, Steps (serves errorText toStr decode reply gateways' inbox) (Pool.empty, w)
        (pool, x.2) ∧ Pool.Linked Recredentialed Eq x.1 pool := by
  refine Steps.linked ?_ ?_ ?_ Pool.Linked.empty hx
  · rintro i pid o r o' r' s s' hlink ⟨hallowed, hdone⟩
    refine ⟨trivial, ?_⟩
    cases hlink with
    | same _ _ _ => exact hdone
    | sent client client' params _ _ =>
      -- whom a request goes to makes no difference to the files
      obtain ⟨choice, hfault, hstep⟩ := hdone
      refine ⟨choice, hfault, ?_⟩
      cases choice with
      | answer result => exact hstep
      | _ => cases hstep
  · rintro i pid _ w ⟨d, hd, request, hrequest, rfl⟩
    obtain ⟨d', hd', htokens, hsame, hvia⟩ := h d hd
    refine ⟨_, ⟨d', hd', request, hrequest, rfl⟩, ?_⟩
    rw [htokens, hvia]
    exact serve_linked hsame d.tokens request
  · exact fun _ _ _ hcrash => hcrash

/-- **Credentials go to their servers and nowhere else.**  Whatever gateways
can do under some values of the downstream credentials, they can do under any
others: a request is served by the same operations with the same answers and
the same response, only that what it sends goes out under the other
credentials; and serving any requests in any order, through faults and
crashes, comes to the same files and the same responses. -/
theorem credentials_apart :
    (∀ d d' : Deployment deps, d.Recredentialed d' →
      ∀ (request : HttpRequest HeaderValue) evs response,
      Runs (Server.serve errorText toStr decode reply deps d.tokens d.engine request) evs response →
      ∃ evs', Runs (Server.serve errorText toStr decode reply deps d'.tokens d'.engine request) evs'
        response ∧ List.Forall₂ Recredentialed evs evs') ∧
    ∀ (gateways gateways' : Set (Deployment deps)) (inbox : Set (HttpRequest HeaderValue)),
      (∀ d ∈ gateways, ∃ d' ∈ gateways', d.Recredentialed d') →
      ∀ w x, Steps (serves errorText toStr decode reply gateways inbox) (Pool.empty, w) x →
      ∃ pool, Steps (serves errorText toStr decode reply gateways' inbox) (Pool.empty, w)
          (pool, x.2) ∧
        ∀ i pid response, x.1 i = some ⟨pid, ret response⟩ → pool i = some ⟨pid, ret response⟩ := by
  constructor
  · intro d d' hsame request evs response hruns
    obtain ⟨htokens, halike, hvia⟩ := hsame.via
    obtain ⟨evs', _, hruns', hevs, rfl⟩ := (serve_linked halike d.tokens request).runs hruns
    rw [htokens, hvia]
    exact ⟨evs', hruns', hevs⟩
  · intro gateways gateways' inbox h w x hx
    have hvia : ∀ d ∈ gateways, ∃ d' ∈ gateways', d'.tokens = d.tokens ∧
        d.engine.downstreams.Alike d'.engine.downstreams ∧
        d'.engine = d.engine.via d'.engine.downstreams := by
      intro d hd
      obtain ⟨d', hd', hsame⟩ := h d hd
      exact ⟨d', hd', hsame.via⟩
    obtain ⟨pool, hsteps, hpool⟩ := serves_follow hvia hx
    refine ⟨pool, hsteps, fun i pid response hi => ?_⟩
    obtain ⟨_, hi', rfl⟩ := hpool.returned hi
    exact hi'

end Systems

/-! ### At the instance -/

namespace Reference

/-- The server takes a token. -/
def credConfig : GatewayConfig :=
  { aliceConfig with downstream :=
      [⟨"s", .http "http://s", some ⟨"env:TOKEN", "TOKEN", by decide⟩⟩] }

def credEnv (token name : String) : Option String :=
  if name = "TOKEN" then some token else aliceEnv name

def credDownstreams (token : String) : Downstreams :=
  ⟨OrdMap.empty.insert "s" ⟨"s", .http "http://s" (some token)⟩, [tool objectSchema]⟩

theorem cred_connect (token : String) : Downstreams.connect (credEnv token)
    (network objectSchema) credConfig.downstream = .ok (credDownstreams token) := rfl

theorem cred_resolve (token : String) :
    Tokens.resolve reference (credEnv token) credConfig = .ok aliceDigests := by
  rw [← alice_resolve]
  rfl

def credDeployment (token : String) : Deployment reference where
  env := credEnv token
  net := network objectSchema
  config := credConfig
  tokens := aliceDigests
  engine := engine.via (credDownstreams token)
  parsed := ⟨fun _ => .ok credConfig, "", "", rfl⟩
  started := ⟨aliceRules, startEvents,
    starts rfl rfl (cred_resolve token) rfl (cred_connect token) (key_read rfl) rfl rfl⟩

theorem cred_alike (token : String) : engine.downstreams.Alike (credDownstreams token) := by
  have hnone : Downstreams.Alike ⟨OrdMap.empty, []⟩ ⟨OrdMap.empty, []⟩ := ⟨rfl, fun _ => .none⟩
  have hclient : client.Alike ⟨"s", .http "http://s" (some token)⟩ := ⟨rfl, .http "http://s" _ _⟩
  exact hnone.insert hclient "s" [tool objectSchema]

theorem cred_recredentialed (token token' : String) :
    (credDeployment token).Recredentialed (credDeployment token') where
  config := rfl
  policy := rfl
  passed := List.forall_mem_cons.mpr ⟨rfl, List.forall_mem_singleton.mpr rfl⟩
  key := rfl
  tokens := List.forall_mem_cons.mpr ⟨rfl, List.forall_mem_singleton.mpr rfl⟩
  listed _ _ _ := rfl

end Reference

open Reference in
/-- `alice`'s trace is stored under one token, and so it can be under
another. -/
theorem credentials_apart_reference : ∃ x p bytes,
    Steps (serves (fun _ _ => "") headerText askBody statusOnly {credDeployment "x"} {agentRequest})
      (Pool.empty, World.empty) x ∧ x.2.files p = some bytes ∧
    ∃ pool, Steps (serves (fun _ _ => "") headerText askBody statusOnly {credDeployment "y"}
      {agentRequest}) (Pool.empty, World.empty) (pool, x.2) := by
  obtain ⟨x, hx, p, bytes, -, hfile⟩ := serve_files
  obtain ⟨pool, hsteps, -⟩ := serves_follow (show ∀ d ∈ ({deployment} : Set (Deployment reference)),
      ∃ d' ∈ ({credDeployment "x"} : Set (Deployment reference)), d'.tokens = d.tokens ∧
        d.engine.downstreams.Alike d'.engine.downstreams ∧
        d'.engine = d.engine.via d'.engine.downstreams by
      rintro _ rfl
      exact ⟨_, rfl, rfl, cred_alike "x", rfl⟩) hx
  have hsame : ∀ d ∈ ({credDeployment "x"} : Set (Deployment reference)),
      ∃ d' ∈ ({credDeployment "y"} : Set (Deployment reference)), d.Recredentialed d' := by
    rintro _ rfl
    exact ⟨_, rfl, cred_recredentialed "x" "y"⟩
  obtain ⟨pool', hsteps', -⟩ := credentials_apart.2 _ _ {agentRequest} hsame _ _ hsteps
  exact ⟨(pool, x.2), p, bytes, hsteps, hfile, pool', hsteps'⟩

end ProvenoGateway
